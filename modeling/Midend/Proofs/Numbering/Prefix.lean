import Mathlib.Data.List.Permutation
import Midend.Proofs.Numbering.Step

/-!
# Value numbering from the front

Instructions are simplified one after the other, and what is written for one depends on those in
front of it alone. Value numbering therefore does to the front of a block what it does to the front
taken by itself, and at the first instruction that has not the shape of its operation it leaves the
front simplified and the rest as it was.
-/

namespace Midend

open Lang

/-- A numbered instruction departs from the signature of its operation. -/
def Lang.Instruction.Misshapen (instr : Instruction) (defect : Defect) : Prop :=
  instr.treatment = .numbered ∧
    ∃ signature, instr.signature? = some signature ∧ signature.defect? instr = some defect

/-- Going past instructions without a fault, with what is written for them and the values behind
them. -/
inductive Pool.Passes (options : Options) :
    Pool → List Instruction → List Instruction → Pool → Prop
  | done (pool : Pool) : Passes options pool [] [] pool
  | step {pool next last : Pool} {instr simplified : Instruction}
      {instrs others : List Instruction} :
      pool.step options instr = .ok (simplified, next) →
      Passes options next instrs others last →
      Passes options pool (instr :: instrs) (simplified :: others) last

namespace Lang.Instruction

/-- A numbered instruction is misshapen when it has a defect. -/
theorem misshapen_iff (instr : Instruction) (defect : Defect) :
    instr.Misshapen defect ↔ instr.treatment = .numbered ∧ instr.defect? = some defect := by
  rw [Misshapen, defect?, Option.bind_eq_some_iff]

/-- An instruction is not misshapen when it has no defect or its result is not known by its
operands. -/
theorem shaped_iff (instr : Instruction) :
    (∀ defect, ¬instr.Misshapen defect) ↔ (instr.treatment = .numbered → instr.defect? = none) := by
  simp only [misshapen_iff, not_and]
  rw [forall_comm, Option.eq_none_iff_forall_ne_some]

/-- A copy that is not misshapen has one operand. -/
theorem exists_source {dest : String} {ty : Ty} {operands : Operands} {pos : Option Position}
    (shaped : ∀ defect, ¬(value .id dest ty operands pos).Misshapen defect) :
    ∃ source, operands.args = [source] := by
  have fits := (shaped_iff _).1 shaped rfl
  have counts := ((Signature.defect?_eq_none_iff ⟨[.any], some .any, 0, 0⟩ _).1 fits).1
  exact List.length_eq_one_iff.1 counts.symm

end Lang.Instruction

namespace Pool

variable {options : Options} {pool middle last : Pool}
variable {instr : Instruction} {before after instrs written : List Instruction}

/-- A step fails at a misshapen instruction, and nowhere else. -/
theorem step_eq_error_iff {fault : Fault} :
    pool.step options instr = .error fault ↔
      ∃ defect, instr.Misshapen defect ∧ fault = .misshapen instr defect := by
  simp only [Instruction.misshapen_iff]
  rw [step_eq]
  cases treated : instr.treatment with
  | ignored => simp
  | fresh => simp
  | numbered =>
    cases found : instr.defect? with
    | none => simp
    | some defect => simp [eq_comm]

/-- A step past an instruction that is not misshapen succeeds. -/
theorem exists_step (pool : Pool) (options : Options)
    (shaped : ∀ defect, ¬instr.Misshapen defect) :
    ∃ simplified next, pool.step options instr = .ok (simplified, next) := by
  cases stepped : pool.step options instr with
  | ok passed => exact ⟨passed.1, passed.2, rfl⟩
  | error fault =>
    obtain ⟨defect, misshapen, -⟩ := step_eq_error_iff.1 stepped
    exact absurd misshapen (shaped defect)

namespace Passes

/-- Something is written for every instruction. -/
theorem length_eq (passes : Passes options pool instrs written last) :
    written.length = instrs.length := by
  induction passes with
  | done => rfl
  | step _ _ ih => rw [List.length_cons, List.length_cons, ih]

/-- No instruction that was gone past is misshapen. -/
theorem not_misshapen (passes : Passes options pool instrs written last) :
    ∀ instr ∈ instrs, ∀ defect, ¬instr.Misshapen defect := by
  induction passes with
  | done => nofun
  | step stepped _ ih =>
    intro instr member defect misshapen
    rcases List.mem_cons.1 member with rfl | later
    · rw [step_eq_error_iff.2 ⟨defect, misshapen, rfl⟩] at stepped
      cases stepped
    · exact ih instr later defect misshapen

/-- Going past one list and what follows it is going past the one and then past the other. -/
theorem exists_of_append (passes : Passes options pool (before ++ after) written last) :
    ∃ front back middle, written = front ++ back ∧ Passes options pool before front middle ∧
      Passes options middle after back last := by
  induction before generalizing pool written with
  | nil => exact ⟨[], written, pool, rfl, .done pool, passes⟩
  | cons instr before ih =>
    obtain _ | ⟨stepped, rest⟩ := passes
    obtain ⟨front, back, middle, rfl, first, second⟩ := ih rest
    exact ⟨_ :: front, back, middle, rfl, .step stepped first, second⟩

/-- Simplifying goes past a first part and then simplifies what follows; the changes in the first
part are counted whatever follows. -/
theorem simplify_append (passes : Passes options pool before written middle) :
    ∃ count, ∀ after, Pool.simplify options pool (before ++ after) =
      (written ++ (Pool.simplify options middle after).1,
        (Pool.simplify options middle after).2.map (count + ·)) := by
  induction passes with
  | done pool =>
    refine ⟨0, fun after => Prod.ext rfl ?_⟩
    cases counted : (Pool.simplify options pool after).2 <;> simp [Except.map, counted]
  | @step pool next last instr simplified instrs others stepped _ ih =>
    obtain ⟨count, rest⟩ := ih
    refine ⟨instr.changesTo simplified + count, fun after => ?_⟩
    rw [List.cons_append, Pool.simplify, stepped]
    refine Prod.ext (by simp [rest]) ?_
    cases counted : (Pool.simplify options last after).2 <;>
      simp [Except.map, rest, counted, Nat.add_assoc]

/-- Simplifying instructions that can be gone past succeeds. -/
theorem simplify (passes : Passes options pool instrs written last) :
    ∃ count, Pool.simplify options pool instrs = (written, .ok count) := by
  obtain ⟨count, along⟩ := passes.simplify_append
  exact ⟨count, by simpa [Pool.simplify, Except.map] using along []⟩

end Passes

/-- Instructions none of which is misshapen can be gone past. -/
theorem exists_passes (options : Options) (pool : Pool)
    (shaped : ∀ instr ∈ instrs, ∀ defect, ¬instr.Misshapen defect) :
    ∃ written last, Passes options pool instrs written last := by
  induction instrs generalizing pool with
  | nil => exact ⟨[], pool, .done pool⟩
  | cons instr instrs ih =>
    obtain ⟨simplified, next, stepped⟩ := pool.exists_step options (shaped instr List.mem_cons_self)
    obtain ⟨others, last, rest⟩ :=
      ih next fun other member => shaped other (List.mem_cons_of_mem instr member)
    exact ⟨simplified :: others, last, .step stepped rest⟩

/-- Simplifying succeeds where instructions can be gone past. -/
theorem exists_passes_of_simplify {count : Nat}
    (succeeded : Pool.simplify options pool instrs = (written, .ok count)) :
    ∃ last, Passes options pool instrs written last := by
  induction instrs generalizing pool written count with
  | nil =>
    cases succeeded
    exact ⟨pool, .done pool⟩
  | cons instr instrs ih =>
    rw [Pool.simplify] at succeeded
    cases stepped : pool.step options instr with
    | error fault =>
      rw [stepped] at succeeded
      cases succeeded
    | ok passed =>
      obtain ⟨first, next⟩ := passed
      simp only [stepped, Prod.mk.injEq] at succeeded
      obtain ⟨rfl, counted⟩ := succeeded
      cases later : (Pool.simplify options next instrs).2 with
      | error fault =>
        rw [later] at counted
        cases counted
      | ok number =>
        obtain ⟨last, rest⟩ := ih (Prod.ext rfl later)
        exact ⟨last, .step stepped rest⟩

/-- At the first misshapen instruction, simplifying leaves what is in front simplified and the rest
as it was. -/
theorem simplify_of_misshapen {defect : Defect}
    (passes : Passes options pool before written middle) (misshapen : instr.Misshapen defect) :
    Pool.simplify options pool (before ++ instr :: after) =
      (written ++ instr :: after, .error (.misshapen instr defect)) := by
  have fails : middle.step options instr = .error (.misshapen instr defect) :=
    step_eq_error_iff.2 ⟨defect, misshapen, rfl⟩
  obtain ⟨count, along⟩ := passes.simplify_append
  rw [along, Pool.simplify, fails]
  rfl

end Pool

section Blocks

variable {options : Options} {block whole : Block} {count : Nat}

/-- Value numbering of a block simplifies its instructions and keeps the rest. -/
theorem Block.numberValues_eq_ok_iff :
    block.numberValues options = (whole, .ok count) ↔
      Pool.simplify options {} block.instrs = (whole.instrs, .ok count) ∧
        whole = { block with instrs := whole.instrs } := by
  rw [numberValues, Prod.mk.injEq]
  constructor
  · rintro ⟨rfl, counted⟩
    exact ⟨Prod.ext rfl counted, rfl⟩
  · rintro ⟨succeeded, same⟩
    rw [succeeded]
    exact ⟨same.symm, rfl⟩

/-- Value numbering of a block fails when one of its instructions is misshapen. -/
theorem Block.numberValues_fails_iff :
    (∃ fault, (block.numberValues options).2 = .error fault) ↔
      ∃ instr ∈ block.instrs, ∃ defect, instr.Misshapen defect := by
  constructor
  · rintro ⟨fault, failed⟩
    by_contra shaped
    simp only [not_exists, not_and] at shaped
    obtain ⟨written, last, passes⟩ := Pool.exists_passes options {} shaped
    obtain ⟨count, succeeded⟩ := passes.simplify
    rw [numberValues, succeeded] at failed
    cases failed
  · rintro ⟨instr, member, defect, misshapen⟩
    cases counted : (block.numberValues options).2 with
    | error fault => exact ⟨fault, rfl⟩
    | ok count =>
      obtain ⟨last, passes⟩ := Pool.exists_passes_of_simplify (Prod.ext rfl counted)
      exact absurd misshapen (passes.not_misshapen instr member defect)

/-- A block with a misshapen instruction keeps that one and what follows it, and holds in front of
it what value numbering makes of the front alone. -/
theorem Block.numberValues_of_misshapen {before after : List Instruction} {instr : Instruction}
    {defect : Defect} (split : block.instrs = before ++ instr :: after)
    (first : ∀ earlier ∈ before, ∀ other, ¬earlier.Misshapen other)
    (misshapen : instr.Misshapen defect) :
    ∃ front count, { block with instrs := before }.numberValues options = (front, .ok count) ∧
      block.numberValues options =
        ({ front with instrs := front.instrs ++ instr :: after },
          .error (.misshapen instr defect)) := by
  obtain ⟨written, middle, passes⟩ := Pool.exists_passes options {} first
  obtain ⟨count, succeeded⟩ := passes.simplify
  refine ⟨{ block with instrs := written }, count, ?_, ?_⟩
  · exact numberValues_eq_ok_iff.2 ⟨succeeded, rfl⟩
  · rw [numberValues, split, Pool.simplify_of_misshapen passes misshapen]

/-- Value numbering makes of the front of a block what it makes of the front alone. -/
theorem Block.numberValues_front {before after : List Instruction}
    (succeeded : { block with instrs := before ++ after }.numberValues options =
      (whole, .ok count)) :
    ∃ front fewer, { block with instrs := before }.numberValues options = (front, .ok fewer) ∧
      front = { whole with instrs := whole.instrs.take before.length } := by
  obtain ⟨simplified, same⟩ := numberValues_eq_ok_iff.1 succeeded
  obtain ⟨last, passes⟩ := Pool.exists_passes_of_simplify simplified
  obtain ⟨front, back, middle, written, first, -⟩ := passes.exists_of_append
  obtain ⟨fewer, alone⟩ := first.simplify
  refine ⟨{ block with instrs := front }, fewer, numberValues_eq_ok_iff.2 ⟨alone, rfl⟩, ?_⟩
  rw [same, written, List.take_left' first.length_eq]

end Blocks

/-- Value numbering of a block changes nothing but its instructions. It fails exactly if one of them
is misshapen; a copy that is not has the one operand that it copies. It fails with the defect of
the first misshapen instruction, and the block then holds what value numbering makes of the
instructions in front of that one, followed by that one and the others as they were. Where value
numbering succeeds, it makes of the front of a block what it makes of the front alone. -/
theorem numberValues_stopsAtDefect (options : Options) (block : Block) :
    (block.numberValues options).1 =
        { block with instrs := (block.numberValues options).1.instrs } ∧
      ((∃ fault, (block.numberValues options).2 = .error fault) ↔
        ∃ instr ∈ block.instrs, ∃ defect, instr.Misshapen defect) ∧
      (∀ dest ty operands pos,
        (∀ defect, ¬(Instruction.value .id dest ty operands pos).Misshapen defect) →
        ∃ source, operands.args = [source]) ∧
      (∀ before instr after defect, block.instrs = before ++ instr :: after →
        (∀ earlier ∈ before, ∀ other, ¬earlier.Misshapen other) → instr.Misshapen defect →
        ∃ front count, { block with instrs := before }.numberValues options = (front, .ok count) ∧
          block.numberValues options =
            ({ front with instrs := front.instrs ++ instr :: after },
              .error (.misshapen instr defect))) ∧
      ∀ before after whole count,
        { block with instrs := before ++ after }.numberValues options = (whole, .ok count) →
        ∃ front fewer, { block with instrs := before }.numberValues options = (front, .ok fewer) ∧
          front = { whole with instrs := whole.instrs.take before.length } :=
  ⟨rfl, Block.numberValues_fails_iff, fun _ _ _ _ => Instruction.exists_source,
    fun _ _ _ _ => Block.numberValues_of_misshapen, fun _ _ _ _ => Block.numberValues_front⟩

/-- A block that computes a sum twice, prints more than one value, and then adds one variable to
none. -/
def lonelySum : Block where
  label := "top"
  next := ["top"]
  instrs := [
    .value .add "x" .int { args := ["a", "b"] } none,
    .value .add "y" .int { args := ["a", "b"] } none,
    .effect .print { args := ["y", "a"] } none,
    .value .add "z" .int { args := ["x"] } none,
    .effect .print { args := ["y", "z"] } none]

/-- Value numbering of the block stops at the sum of one variable, where the instructions in front
of it are simplified; and the first of these are simplified as they are alone. -/
theorem numberValues_stopsAtDefect_lonelySum :
    (∃ front count,
      { lonelySum with instrs := lonelySum.instrs.take 3 }.numberValues {} = (front, .ok count) ∧
        front.instrs = [
          .value .add "x" .int { args := ["a", "b"] } none,
          .value .id "y" .int { args := ["x"] } none,
          .effect .print { args := ["x", "a"] } none] ∧
        lonelySum.numberValues {} =
          ({ front with instrs := front.instrs ++ lonelySum.instrs.drop 3 },
            .error (.misshapen (.value .add "z" .int { args := ["x"] } none) (.argCount 2 1)))) ∧
      ∃ whole count front fewer,
        { lonelySum with instrs := lonelySum.instrs.take 3 }.numberValues {} = (whole, .ok count) ∧
          { lonelySum with instrs := lonelySum.instrs.take 1 }.numberValues {} =
            (front, .ok fewer) ∧
          front = { whole with instrs := whole.instrs.take 1 } := by
  obtain ⟨-, -, -, stops, fronts⟩ := numberValues_stopsAtDefect {} lonelySum
  have shaped : ∀ earlier ∈ lonelySum.instrs.take 3, ∀ other, ¬earlier.Misshapen other := by
    simp only [Instruction.shaped_iff]
    decide
  have misshapen : (Instruction.value .add "z" .int { args := ["x"] } none).Misshapen
      (.argCount 2 1) := ⟨rfl, _, rfl, rfl⟩
  obtain ⟨whole, count, succeeded, stopped⟩ :=
    stops (lonelySum.instrs.take 3) _ (lonelySum.instrs.drop 4) _ rfl shaped misshapen
  obtain ⟨front, fewer, alone, same⟩ :=
    fronts (lonelySum.instrs.take 1) ((lonelySum.instrs.take 3).drop 1) whole count succeeded
  refine ⟨⟨whole, count, succeeded, ?_, stopped⟩, whole, count, front, fewer, succeeded, alone,
    same⟩
  have written := congrArg Prod.fst (Block.numberValues_eq_ok_iff.1 succeeded).1
  exact written.symm.trans (by cbv)

end Midend
