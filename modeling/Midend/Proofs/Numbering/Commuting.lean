import Midend.Proofs.Numbering.Lockstep
import Midend.Proofs.Numbering.Merging
import Midend.Proofs.Numbering.Prefix

/-!
# Operands in any order

Where operands of commutative operations are taken in any order, values that were told apart by that
order come to have one number, so that the pools of the one run merge into those of the other. A
number with a literal goes over to one with the same literal, and one with a holder to one with a
holder: whatever is known of a result without the choice is known with it.
-/

namespace Midend

open Lang

namespace Lang.Instruction

/-- Whether the instruction is a constant. -/
def isConst : Instruction → Bool
  | const .. => true
  | _ => false

/-- Whether the instruction is a constant or a copy. -/
def isKnown : Instruction → Bool
  | const .. | value .id .. => true
  | _ => false

/-- An instruction that is a constant where another is one, and a constant or a copy where the other
is one of these. -/
structure KnowsMore (instr other : Instruction) : Prop where
  isConst : instr.isConst = true → other.isConst = true
  isKnown : instr.isKnown = true → other.isKnown = true

/-- Reading other variables makes no constant. -/
@[simp] theorem isConst_mapArgs (change : String → String) (instr : Instruction) :
    (instr.mapArgs change).isConst = instr.isConst := by
  cases instr <;> rfl

/-- Reading other variables makes neither a constant nor a copy. -/
@[simp] theorem isKnown_mapArgs (change : String → String) (instr : Instruction) :
    (instr.mapArgs change).isKnown = instr.isKnown := by
  cases instr with
  | const => rfl
  | value op => cases op <;> rfl
  | effect => rfl

/-- Instructions that differ in the variables that they read are known alike. -/
theorem knowsMore_mapArgs (instr : Instruction) (change other : String → String) :
    (instr.mapArgs change).KnowsMore (instr.mapArgs other) := by
  constructor <;> simp

end Lang.Instruction

namespace Pool

variable {options others : Options} {image : Nat → Nat} {pool merged : Pool}

/-- More is known of what is written for the number that a number goes over to, if the instruction
is no constant whose literal was lost. -/
theorem MergesInto.knowsMore_replacement (merges : pool.MergesInto others image merged)
    {number : Nat} (bound : number < pool.table.size) (dest : String) (ty : Ty)
    (instr : Instruction) (constant : instr.isConst = true → ∃ literal,
      merged.table.literal? (image number) = some literal) :
    (pool.replacement number dest ty instr).KnowsMore
      (merged.replacement (image number) dest ty instr) := by
  rw [replacement, replacement, ← merges.literal?_image bound]
  cases known : merged.table.literal? (image number) with
  | some literal => exact ⟨fun _ => rfl, fun _ => rfl⟩
  | none =>
    have varying : ¬instr.isConst = true := fun isConst => by
      obtain ⟨literal, found⟩ := constant isConst
      rw [known] at found
      cases found
    cases held : merged.standIn? (image number) with
    | some other =>
      refine ⟨fun isConst => ?_, fun _ => rfl⟩
      cases heldToo : pool.standIn? number with
      | some holder =>
        rw [heldToo] at isConst
        cases isConst
      | none =>
        rw [heldToo] at isConst
        exact absurd (by simpa using isConst) varying
    | none =>
      rw [merges.standIn?_eq_none held]
      exact instr.knowsMore_mapArgs _ _

/-- Of what is written for an instruction that both pools go past, more is known in the second. -/
theorem MergesInto.knowsMore_past (merges : pool.MergesInto others image merged)
    (looser : options.commutative = true → others.commutative = true) (instr : Instruction) :
    (pool.past options instr).1.KnowsMore (merged.past others instr).1 := by
  cases result : instr.result? with
  | none =>
    rw [past_of_none result, past_of_none result]
    exact instr.knowsMore_mapArgs _ _
  | some found =>
    obtain ⟨dest, ty⟩ := found
    have literal (dest : String) (ty : Ty) (literal : Literal) (pos : Option Position)
        (same : instr = .const dest ty literal pos) :
        ((merged.readAll instr.args).2.resultNumber others (merged.readAll instr.args).1
          instr).2.table.literal? ((merged.readAll instr.args).2.resultNumber others
            (merged.readAll instr.args).1 instr).1 = some literal := by
      subst same
      exact merges.sound_merged.consistent.literal?_intern (.constant literal)
    rw [past_of_some result, past_of_some result]
    obtain ⟨later, -, -, bound, goes, counted⟩ := merges.resultNumber_readAll looser instr
    dsimp only at bound goes counted ⊢
    rw [(List.cons.inj goes).1] at literal ⊢
    refine counted.knowsMore_replacement (bound _ List.mem_cons_self) dest ty instr
      fun isConst => ?_
    cases instr with
    | const => exact ⟨_, literal _ _ _ _ rfl⟩
    | value op => cases op <;> cases isConst
    | effect => cases isConst

/-- A step that succeeds from the first pool succeeds from the second, and of what is written more
is known. -/
theorem MergesInto.step (merges : pool.MergesInto others image merged)
    (looser : options.commutative = true → others.commutative = true)
    {instr simplified : Instruction} {next : Pool}
    (stepped : pool.step options instr = .ok (simplified, next)) :
    ∃ other mergedNext later, merged.step others instr = .ok (other, mergedNext) ∧
      simplified.KnowsMore other ∧ next.MergesInto others later mergedNext := by
  rcases cases_of_step stepped with ⟨ignored, rfl, rfl⟩ | ⟨looked, shaped, passed⟩
  · refine ⟨simplified, merged, image, ?_, ⟨id, id⟩, merges⟩
    rw [step_eq, ignored]
  · have known := merges.knowsMore_past looser instr
    obtain ⟨later, behind⟩ := merges.past looser instr
    rw [passed] at known behind
    exact ⟨_, _, later, merged.step_eq_past others looked shaped, known, behind⟩

/-- Of what is written for instructions from the first pool, more is known of what is written for
them from the second. -/
theorem MergesInto.passes (merges : pool.MergesInto others image merged)
    (looser : options.commutative = true → others.commutative = true)
    {instrs written : List Instruction} {last : Pool}
    (passes : Passes options pool instrs written last) :
    ∃ known mergedLast, Passes others merged instrs known mergedLast ∧
      List.Forall₂ Instruction.KnowsMore written known := by
  induction passes generalizing merged image with
  | done => exact ⟨[], merged, .done merged, .nil⟩
  | step stepped _ ih =>
    obtain ⟨other, next, later, steppedToo, more, behind⟩ := merges.step looser stepped
    obtain ⟨known, last, passesToo, rest⟩ := ih behind
    exact ⟨other :: known, last, .step steppedToo passesToo, .cons more rest⟩

end Pool

/-- Taking operands of commutative operations in any order only adds to what value numbering finds
out. If it succeeds on a block with any options, it succeeds with and without that choice; and where
it writes a constant without the choice, it writes one with the choice, and where it writes a
constant or a copy without the choice, it writes one of these with it. -/
theorem numberValues_knowsMore (options : Options) (block simplified : Block) (count : Nat)
    (succeeded : block.numberValues options = (simplified, .ok count)) :
    ∃ inOrder anyOrder fewer more,
      block.numberValues { options with commutative := false } = (inOrder, .ok fewer) ∧
        block.numberValues { options with commutative := true } = (anyOrder, .ok more) ∧
        List.Forall₂ Instruction.KnowsMore inOrder.instrs anyOrder.instrs := by
  obtain ⟨last, passes⟩ :=
    Pool.exists_passes_of_simplify (Block.numberValues_eq_ok_iff.1 succeeded).1
  -- Whether instructions have the shape of their operations does not depend on the options.
  obtain ⟨written, _, inOrder⟩ :=
    Pool.exists_passes { options with commutative := false } {} passes.not_misshapen
  obtain ⟨known, _, anyOrder, along⟩ :=
    (Pool.mergesInto_empty { options with commutative := true } id).passes (fun _ => rfl) inOrder
  obtain ⟨fewer, inOrder⟩ := inOrder.simplify
  obtain ⟨more, anyOrder⟩ := anyOrder.simplify
  exact ⟨{ block with instrs := written }, { block with instrs := known }, fewer, more,
    Block.numberValues_eq_ok_iff.2 ⟨inOrder, rfl⟩, Block.numberValues_eq_ok_iff.2 ⟨anyOrder, rfl⟩,
    along⟩

/-- A block that computes a sum both ways round, then products of the two sums and a constant both
ways round, and copies one product over a sum. -/
def mirroredSums : Block where
  label := "top"
  instrs := [
    .const "k" .int (.int 4) none,
    .value .add "x" .int { args := ["a", "b"] } none,
    .value .add "y" .int { args := ["b", "a"] } none,
    .value .mul "p" .int { args := ["x", "k"] } none,
    .value .mul "q" .int { args := ["k", "y"] } none,
    .value .id "x" .int { args := ["q"] } none,
    .value .id "l" .int { args := ["k"] } none]

/-- In the block the second sum and the second product become copies when operands are taken in any
order, and what was a constant or a copy stays one. -/
theorem numberValues_knowsMore_mirroredSums :
    ∃ inOrder anyOrder fewer more,
      mirroredSums.numberValues {} = (inOrder, .ok fewer) ∧
        mirroredSums.numberValues { commutative := true } = (anyOrder, .ok more) ∧
        List.Forall₂ Instruction.KnowsMore inOrder.instrs anyOrder.instrs ∧
        inOrder.instrs.map Instruction.isKnown = [true, false, false, false, false, true, true] ∧
        anyOrder.instrs.map Instruction.isKnown = [true, false, true, false, true, true, true] := by
  obtain ⟨count, counted⟩ := Pool.simplify_succeeds {} {} mirroredSums.instrs (by decide)
  have succeeded : mirroredSums.numberValues {} = (_, .ok count) := Prod.ext rfl counted
  obtain ⟨inOrder, anyOrder, fewer, more, first, second, along⟩ :=
    numberValues_knowsMore {} mirroredSums _ count succeeded
  have writtenFirst : _ = inOrder.instrs :=
    congrArg Prod.fst (Block.numberValues_eq_ok_iff.1 first).1
  have writtenSecond : _ = anyOrder.instrs :=
    congrArg Prod.fst (Block.numberValues_eq_ok_iff.1 second).1
  refine ⟨inOrder, anyOrder, fewer, more, first, second, along, ?_, ?_⟩
  · rw [← writtenFirst]
    cbv
  · rw [← writtenSecond]
    cbv

end Midend
