import Midend.Proofs.Block.Shape
import Midend.Proofs.Numbering.Equality
import Midend.Proofs.Numbering.Lockstep
import Midend.Proofs.Numbering.Merging

/-!
# Numbering values twice

What value numbering writes for an instruction is written for that result again. A second run over
a simplified block goes through the pools of the first one and changes nothing, unless a constant is
no number: in the first run copies of it have its number, but in the second, where they are
constants themselves, each has a number of its own. The pools of the second run then merge into
those of the first, so that it still writes the same. It counts every such constant as changed,
because it does not equal itself.
-/

namespace Midend

open Lang

namespace Lang.Instruction

/-- Whether the instruction is a constant that is no number. -/
def isNaN : Instruction → Bool
  | const _ _ literal _ => literal.isNaN
  | value .. | effect .. => false

/-- Reading other variables sends control to the same places. -/
theorem sameControl_mapArgs (change : String → String) (instr : Instruction) :
    instr.SameControl (instr.mapArgs change) := by
  constructor
  · cases instr with
    | const => rfl
    | value => rfl
    | effect op => cases op <;> rfl
  · cases instr with
    | const => rfl
    | value => rfl
    | effect op => cases op <;> rfl

/-- An instruction that stays as it is shows no change, unless it is a constant that is no
number. -/
theorem changesTo_self (instr : Instruction) :
    instr.changesTo instr = if instr.isNaN then 1 else 0 := by
  have alike : differences instr.args instr.args = 0 := by
    rw [differences, List.length_eq_zero_iff, List.filter_eq_nil_iff]
    intro pair member
    obtain ⟨index, _, rfl⟩ := List.mem_iff_getElem.1 member
    simp
  cases instr with
  | const dest ty literal pos =>
    rw [changesTo, Literal.equals_self, isNaN]
    cases literal.isNaN <;> rfl
  | value => simp [changesTo, alike, isNaN]
  | effect => simp [changesTo, alike, isNaN]

end Lang.Instruction

namespace Pool

variable {pool merged next : Pool} {options : Options} {instr simplified : Instruction}
variable {image : Nat → Nat}

/-- What is written for an instruction stands in for itself. -/
theorem Consistent.replacement_replacement (consistent : pool.Consistent) (number : Nat)
    (dest : String) (ty : Ty) (instr : Instruction) :
    pool.replacement number dest ty (pool.replacement number dest ty instr) =
      pool.replacement number dest ty instr := by
  unfold replacement
  split
  · rfl
  · rfl
  · exact Instruction.mapArgs_mapArgs consistent.preferred_preferred instr

section Known

variable {numbers : List Nat} {after counted : Pool} {number : Nat}

/-- A result with a literal has the number that a constant is given before the operands are read, or
it is no number and has the number of what it is a copy of. -/
theorem Sound.intern_of_literal? (sound : pool.Sound)
    (read : pool.readAll instr.args = (numbers, after))
    (numbered : after.resultNumber options numbers instr = (number, counted)) {literal : Literal}
    (known : counted.table.literal? number = some literal) :
    pool.intern (.constant literal) = (number, counted) ∨
      literal.isNaN = true ∧ counted = pool := by
  have reads := (sound.readsOn_readAll instr.args).1
  rw [read] at reads
  rcases after.cases_of_resultNumber options numbers instr with
    ⟨other, unread, result⟩ | ⟨operand, rfl, result⟩ | ⟨op, result⟩ | result
  all_goals rw [numbered] at result
  · have unchanged : after = pool := by
      rw [unread] at read
      exact (Prod.mk.inj read).2.symm
    have constant := reads.sound.consistent.literal?_intern (.constant other)
    rw [← result, known, Option.some.injEq] at constant
    exact .inl (by rw [constant, result, unchanged])
  · obtain ⟨rfl, rfl⟩ := Prod.mk.inj result
    rw [Table.literal?_eq_some_iff] at known
    rcases reads.expr?_cases number _ known with ⟨_, unknown⟩ | found
    · cases unknown
    · have unchanged : counted = pool := readAll_of_lt read fun other member =>
        List.mem_singleton.1 member ▸ Table.lt_size_of_expr? found
      have reflexive := Expr.equals_self_constant literal
      cases nan : literal.isNaN with
      | true => exact .inr ⟨rfl, unchanged⟩
      | false =>
        rw [nan] at reflexive
        exact .inl (by rw [sound.intern_eq reflexive found, unchanged])
  · have unknown := reads.sound.consistent.literal?_intern
      (.apply op (options.arrange op numbers))
    rw [← result, known] at unknown
    cases unknown
  · have unknown := reads.sound.consistent.fresh_unknown.1
    rw [← result, known] at unknown
    cases unknown

/-- Reading a variable that holds a result without a literal gives the number of the result, and
leaves the same pool as numbering it. -/
theorem Sound.readAll_of_standIn? (sound : pool.Sound)
    (read : pool.readAll instr.args = (numbers, after))
    (numbered : after.resultNumber options numbers instr = (number, counted))
    (unknown : counted.table.literal? number = none) {holder : String}
    (held : counted.standIn? number = some holder) :
    pool.readAll [holder] = ([number], counted) := by
  have reads := (sound.readsOn_readAll instr.args).1
  rw [read] at reads
  rcases after.cases_of_resultNumber options numbers instr with
    ⟨literal, -, result⟩ | ⟨operand, rfl, result⟩ | ⟨op, result⟩ | result
  all_goals rw [numbered] at result
  · have constant := reads.sound.consistent.literal?_intern (.constant literal)
    rw [← result, unknown] at constant
    cases constant
  · obtain ⟨rfl, rfl⟩ := Prod.mk.inj result
    obtain ⟨name, single⟩ : ∃ name, instr.args = [name] := by
      rw [← List.length_eq_one_iff, ← length_readAll pool instr.args, read]
      rfl
    rw [single] at read
    have again : pool.readAll [counted.preferred name] = pool.readAll [name] :=
      sound.readAll_map_preferred [name] (by rw [read]; exact reads.sound.readsOn)
    obtain ⟨isNumber, isPool⟩ : (pool.read name).1 = number ∧ (pool.read name).2 = counted := by
      rw [readAll_cons, Prod.mk.injEq] at read
      exact ⟨(List.cons.inj read.1).1, read.2⟩
    have known := (sound.readsOn_read name).2.2
    rw [isNumber, isPool] at known
    have standIn := (reads.sound.consistent.standIn?_eq_preferred known).1
    rw [held, Option.some.injEq] at standIn
    rw [standIn, again, read]
  · have found := reads.sound.consistent.expr?_intern (.apply op (options.arrange op numbers))
    rw [← result] at found
    unfold Pool.intern Table.intern at result
    cases index : after.table.find? (.apply op (options.arrange op numbers)) with
    | none =>
      rw [index] at result
      obtain ⟨rfl, rfl⟩ := Prod.mk.inj result
      have unheld : after.standIn? after.table.size = none := reads.sound.consistent.standIn?_size
      exact absurd (held.symm.trans unheld) nofun
    | some other =>
      rw [index] at result
      obtain ⟨rfl, rfl⟩ := Prod.mk.inj result
      rcases reads.expr?_cases number _ found with ⟨_, fresh⟩ | before
      · cases fresh
      · -- The operands are older than the result, so that none of them was read for the first time.
        have older := sound.consistent.table.operand_lt number op _ before
        have unchanged : after = pool := readAll_of_lt read fun operand member =>
          Nat.lt_trans (older operand ((options.mem_arrange op numbers operand).2 member))
            (Table.lt_size_of_expr? before)
        subst unchanged
        have knows := (sound.consistent.mem_holdersOf holder number).1 (List.mem_of_mem_head? held)
        rw [readAll_cons, read_of_known knows]
        rfl
  · have unheld := reads.sound.consistent.fresh_unknown.2
    rw [← result, held] at unheld
    cases unheld

/-- What is written for an instruction has the number of its result, and leaves the same pool,
unless the result is a copy of what is no number. -/
theorem Sound.resultNumber_replacement (sound : pool.Sound)
    (read : pool.readAll instr.args = (numbers, after))
    (numbered : after.resultNumber options numbers instr = (number, counted)) (dest : String)
    (ty : Ty) :
    let operands := pool.readAll (counted.replacement number dest ty instr).args
    operands.2.resultNumber options operands.1 (counted.replacement number dest ty instr) =
        (number, counted) ∨
      ∃ literal, literal.isNaN = true ∧ pool.table.literal? number = some literal ∧
        counted = pool := by
  cases literal : counted.table.literal? number with
  | some found =>
    rcases sound.intern_of_literal? read numbered literal with same | ⟨nan, unchanged⟩
    · rw [replacement, literal]
      exact .inl same
    · exact .inr ⟨found, nan, unchanged ▸ literal, unchanged⟩
  | none =>
    refine .inl ?_
    cases held : counted.standIn? number with
    | some holder =>
      have again := sound.readAll_of_standIn? read numbered literal held
      rw [replacement, literal, held]
      change (pool.readAll [holder]).2.resultNumber options (pool.readAll [holder]).1 _ = _
      rw [again]
      rfl
    | none =>
      have unchanged := after.preferred_resultNumber options numbers instr
      rw [numbered] at unchanged
      have written : counted.replacement number dest ty instr = instr.mapArgs after.preferred := by
        rw [replacement, literal, held, unchanged]
      have reads := (sound.readsOn_readAll instr.args).1.sound.readsOn
      have again := sound.readAll_map_preferred instr.args reads
      rw [read] at again
      rw [written, Instruction.args_mapArgs, again]
      exact (after.resultNumber_mapArgs options numbers _ instr).trans numbered

end Known

/-- What was written for an instruction is written for it again, and leaves the same pool, unless it
is a constant that is no number, copied from a variable. -/
theorem Sound.past_past (sound : pool.Sound)
    (passed : pool.past options instr = (simplified, next)) :
    pool.past options simplified = (simplified, next) ∨
      ∃ dest ty literal pos number, simplified = .const dest ty literal pos ∧
        literal.isNaN = true ∧ pool.table.literal? number = some literal ∧
        next = pool.assign dest number := by
  obtain ⟨reads, bounds⟩ := sound.readsOn_readAll instr.args
  cases result : instr.result? with
  | none =>
    rw [past_of_none result] at passed
    obtain ⟨rfl, rfl⟩ := Prod.mk.inj passed
    rw [past_of_none ((result?_mapArgs _ _).trans result), Instruction.args_mapArgs,
      sound.readAll_map_preferred instr.args reads.sound.readsOn,
      Instruction.mapArgs_mapArgs reads.sound.consistent.preferred_preferred]
    exact .inl rfl
  | some found =>
    obtain ⟨dest, ty⟩ := found
    obtain ⟨counted, -⟩ := reads.sound.resultNumber options bounds instr
    generalize read : pool.readAll instr.args = operands at reads counted
    generalize numbered : operands.2.resultNumber options operands.1 instr = number at counted
    rw [past_of_some result, read] at passed
    dsimp only at passed
    rw [numbered] at passed
    obtain ⟨rfl, rfl⟩ := Prod.mk.inj passed
    have kept := (keeps_replacement number.2 number.1 result).1.trans result
    rcases sound.resultNumber_replacement read numbered dest ty with
      again | ⟨literal, nan, known, unchanged⟩
    · rw [past_of_some kept]
      dsimp only at again ⊢
      rw [again, counted.consistent.replacement_replacement]
      exact .inl rfl
    · refine .inr ⟨dest, ty, literal, instr.pos?, number.1, ?_, nan, known, by rw [unchanged]⟩
      rw [replacement, unchanged, known]

/-- A constant that is no number is given a new number, which goes over to any number that has the
same literal. -/
theorem MergesInto.past_const (merges : pool.MergesInto options image merged) {literal : Literal}
    (nan : literal.isNaN = true) {number : Nat}
    (known : merged.table.literal? number = some literal) (dest : String) (ty : Ty)
    (pos : Option Position) :
    ∃ next later, pool.past options (.const dest ty literal pos) =
        (.const dest ty literal pos, next) ∧
      next.MergesInto options later (merged.assign dest number) := by
  have new : pool.table.find? (.constant literal) = none := by
    rw [Table.find?, Expr.equals_self_constant, nan]
    rfl
  have interned : pool.intern (.constant literal) =
      (pool.table.size, { pool with table := pool.table.append (.constant literal) }) := by
    rw [Pool.intern, Table.intern, new]
  have sound : (pool.intern (.constant literal)).2.Sound :=
    merges.sound.intern trivial fun _ same => by cases same
  have has := merges.sound.consistent.literal?_intern (.constant literal)
  rw [interned] at sound has
  obtain ⟨later, -, -, bound, goes, appended⟩ := merges.append (.constant literal) sound
    (.refl _ merged) rfl rfl merges.sound_merged ((Table.literal?_eq_some_iff _ _ _).1 known)
  have assigned := appended.assign dest (bound _ List.mem_cons_self)
  rw [← (List.cons.inj goes).1] at assigned
  refine ⟨_, later, ?_, assigned⟩
  have numbered : (pool.readAll []).2.resultNumber options (pool.readAll []).1
      (.const dest ty literal pos) = _ := interned
  rw [past_of_some rfl]
  dsimp only [Instruction.args, Instruction.operands]
  rw [numbered, replacement, has]
  rfl

/-- Past what an instruction has been replaced by in the second pool the first writes the same. -/
theorem MergesInto.past_again (merges : pool.MergesInto options image merged)
    (passed : merged.past options instr = (simplified, next)) :
    ∃ last later, pool.past options simplified = (simplified, last) ∧
      last.MergesInto options later next := by
  rcases merges.sound_merged.past_past passed with
    again | ⟨dest, ty, literal, pos, number, rfl, nan, known, rfl⟩
  · exact merges.past_of_merged again
  · exact merges.past_const nan known dest ty pos

/-- What is written for an instruction sends control to the same places, is looked at as well, and
has the shape of its operation if the instruction has. -/
theorem shape_of_past (passed : pool.past options instr = (simplified, next))
    (looked : instr.treatment ≠ .ignored)
    (shaped : instr.treatment = .numbered → instr.defect? = none) :
    instr.SameControl simplified ∧ simplified.treatment ≠ .ignored ∧
      (simplified.treatment = .numbered → simplified.defect? = none) := by
  have mapped (change : String → String) : instr.SameControl (instr.mapArgs change) ∧
      (instr.mapArgs change).treatment ≠ .ignored ∧
      ((instr.mapArgs change).treatment = .numbered → (instr.mapArgs change).defect? = none) := by
    rw [Instruction.treatment_mapArgs]
    exact ⟨instr.sameControl_mapArgs change, looked,
      fun numbered => Instruction.defect?_mapArgs (shaped numbered)⟩
  cases result : instr.result? with
  | none =>
    rw [past_of_none result] at passed
    rw [← (Prod.mk.inj passed).1]
    exact mapped _
  | some found =>
    have straight : instr.isTerminator = false ∧ instr.jumpTargets = [] := by
      cases instr with
      | const => exact ⟨rfl, rfl⟩
      | value => exact ⟨rfl, rfl⟩
      | effect => cases result
    have numbered : Treatment.numbered ≠ .ignored := by decide
    rw [past_of_some result] at passed
    rw [← (Prod.mk.inj passed).1, replacement]
    split
    · exact ⟨⟨straight.1.symm, straight.2.symm⟩, numbered, fun _ => rfl⟩
    · exact ⟨⟨straight.1.symm, straight.2.symm⟩, numbered, fun _ => rfl⟩
    · exact mapped _

/-- A step past what an instruction has been replaced by in the second pool writes the same from the
first. -/
theorem MergesInto.step_again (merges : pool.MergesInto options image merged)
    (stepped : merged.step options instr = .ok (simplified, next)) :
    instr.SameControl simplified ∧
      ∃ last later, pool.step options simplified = .ok (simplified, last) ∧
        last.MergesInto options later next := by
  rcases cases_of_step stepped with ⟨ignored, rfl, rfl⟩ | ⟨looked, shaped, passed⟩
  · refine ⟨⟨rfl, rfl⟩, pool, image, ?_, merges⟩
    rw [step_eq, ignored]
  · obtain ⟨control, lookedToo, shapedToo⟩ := shape_of_past passed looked shaped
    obtain ⟨last, later, again, behind⟩ := merges.past_again passed
    rw [pool.step_eq_past options lookedToo shapedToo, again]
    exact ⟨control, last, later, rfl, behind⟩

/-- Simplifying simplified instructions writes them again, and the changes counted are the constants
that are no numbers. -/
theorem MergesInto.simplify_again (merges : pool.MergesInto options image merged)
    {instrs others : List Instruction} {count : Nat}
    (succeeded : Pool.simplify options merged instrs = (others, .ok count)) :
    Pool.simplify options pool others = (others, .ok (others.countP Instruction.isNaN)) ∧
      List.Forall₂ Instruction.SameControl instrs others := by
  induction instrs generalizing pool merged image others count with
  | nil =>
    cases succeeded
    exact ⟨rfl, .nil⟩
  | cons instr instrs ih =>
    rw [Pool.simplify] at succeeded
    cases stepped : merged.step options instr with
    | error fault =>
      rw [stepped] at succeeded
      cases succeeded
    | ok passed =>
      obtain ⟨first, next⟩ := passed
      simp only [stepped, Prod.mk.injEq] at succeeded
      obtain ⟨rfl, counted⟩ := succeeded
      cases later : (Pool.simplify options next instrs).2 with
      | error fault =>
        rw [later] at counted
        cases counted
      | ok number =>
        obtain ⟨control, last, _, steppedAgain, behind⟩ := merges.step_again stepped
        obtain ⟨again, controls⟩ := ih behind (Prod.ext rfl later)
        refine ⟨?_, .cons control controls⟩
        rw [Pool.simplify, steppedAgain]
        simp only [again, Except.map, Instruction.changesTo_self, List.countP_cons, Nat.add_comm]

end Pool

variable {options : Options}

/-- Value numbering of a block that it has simplified writes it again. -/
theorem Block.numberValues_again {block simplified : Block} {count : Nat}
    (succeeded : block.numberValues options = (simplified, .ok count)) :
    simplified.numberValues options =
        (simplified, .ok (simplified.instrs.countP Instruction.isNaN)) ∧
      block.SameShape simplified := by
  rw [Block.numberValues, Prod.mk.injEq] at succeeded
  obtain ⟨rfl, counted⟩ := succeeded
  obtain ⟨again, controls⟩ :=
    (Pool.mergesInto_empty options id).simplify_again (Prod.ext rfl counted)
  refine ⟨?_, rfl, controls⟩
  rw [Block.numberValues, again]

/-- Value numbering of a function that it has simplified changes nothing. -/
theorem Lang.Function.numberValues_again {function simplified : Function}
    (succeeded : function.numberValues options = .ok simplified) :
    simplified.numberValues options = .ok simplified := by
  obtain ⟨blocks, along, rfl⟩ := Function.numberValues_eq_ok_iff.1 succeeded
  have alike : List.Forall₂ Block.SameShape function.blocks blocks := by
    refine along.imp fun block other numbered => ?_
    obtain ⟨count, numbered⟩ := numbered
    exact (Block.numberValues_again numbered).2
  rw [numberValues_eq_ok_iff, Function.blocks_withBlocks alike]
  refine ⟨blocks, List.forall₂_same.2 fun block member => ?_, rfl⟩
  obtain ⟨origin, -, count, numbered⟩ := exists_of_forall₂ along.flip member
  exact ⟨_, (Block.numberValues_again numbered).1⟩

/-- Value numbering is idempotent: a program that it has simplified is simplified to itself, and so
is a block. What it counts as changed in a block that it has simplified are the constants that are
no numbers; where there are none, it finds nothing to change. -/
theorem numberValues_idempotent (options : Options) :
    (∀ program simplified : Program, program.numberValues options = .ok simplified →
        simplified.numberValues options = .ok simplified) ∧
      ∀ (block simplified : Block) (count : Nat),
        block.numberValues options = (simplified, .ok count) →
        simplified.numberValues options =
          (simplified, .ok (simplified.instrs.countP Instruction.isNaN)) := by
  refine ⟨fun program simplified succeeded => ?_, fun _ _ _ succeeded =>
    (Block.numberValues_again succeeded).1⟩
  have along := forall₂_of_numberValues succeeded
  have again : simplified.functions.mapM (fun function => function.numberValues options) =
      .ok simplified.functions := by
    rw [mapM_eq_ok_iff, List.forall₂_same]
    intro function member
    obtain ⟨origin, -, numbered⟩ := exists_of_forall₂ along.flip member
    exact Function.numberValues_again numbered
  rw [Program.numberValues, again]
  rfl

/-- A block that copies and prints what is no number. -/
def copiedNaN : Block where
  label := "top"
  instrs := [
    .const "x" .float (.float .quietNaN) none,
    .value .id "y" .float { args := ["x"] } none,
    .effect .print { args := ["y"] } none]

/-- The loop that repeats sums is simplified, and then simplified to itself, and so is each of its
blocks. Of what is no number the copy becomes a constant as well, and then both are counted each
time. -/
theorem numberValues_idempotent_repeatedSums :
    (∃ simplified, repeatedSums.numberValues { commutative := true } = .ok simplified ∧
      simplified.numberValues { commutative := true } = .ok simplified) ∧
    (∀ block ∈ repeatedSums.functions.flatMap Function.blocks, ∃ simplified count,
      block.numberValues { commutative := true } = (simplified, .ok count) ∧
        simplified.numberValues { commutative := true } =
          (simplified, .ok (simplified.instrs.countP Instruction.isNaN))) ∧
    ∃ simplified, copiedNaN.numberValues {} = (simplified, .ok 3) ∧
      simplified.numberValues {} = (simplified, .ok 2) := by
  obtain ⟨programs, blocks⟩ := numberValues_idempotent { commutative := true }
  refine ⟨?_, ?_, ?_⟩
  · obtain ⟨simplified, succeeded⟩ := numberValues_succeeds repeatedSums _ (by decide)
    exact ⟨simplified, succeeded, programs repeatedSums simplified succeeded⟩
  · have shaped : ∀ block ∈ repeatedSums.functions.flatMap Function.blocks,
        ∀ instr ∈ block.instrs, instr.treatment = .numbered → instr.defect? = none := by decide
    intro block member
    obtain ⟨count, counted⟩ := Pool.simplify_succeeds _ {} block.instrs (shaped block member)
    have succeeded : block.numberValues _ = (_, .ok count) := Prod.ext rfl counted
    exact ⟨_, count, succeeded, blocks block _ count succeeded⟩
  · have succeeded : copiedNaN.numberValues {} = ({ copiedNaN with instrs := [
        .const "x" .float (.float .quietNaN) none, .const "y" .float (.float .quietNaN) none,
        .effect .print { args := ["x"] } none] }, .ok 3) := by
      rfl
    exact ⟨_, succeeded, (numberValues_idempotent {}).2 copiedNaN _ 3 succeeded⟩

/-- In a block that value numbering has simplified it can find something to change again: a constant
that is no number. -/
theorem numberValues_recountsNaN :
    ¬∀ (options : Options) (block simplified : Block) (count : Nat),
      block.numberValues options = (simplified, .ok count) →
        simplified.numberValues options = (simplified, .ok 0) := by
  intro idempotent
  let block : Block := { label := "top", instrs := [.const "x" .float (.float .quietNaN) none] }
  have counted : block.numberValues {} = (block, .ok 1) := by
    rfl
  have again := (Prod.mk.inj (counted.symm.trans (idempotent {} block block 1 counted))).2
  exact absurd (Except.ok.inj again) (by decide)

end Midend
