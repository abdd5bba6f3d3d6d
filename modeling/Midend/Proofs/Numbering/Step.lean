import Midend.Numbering.Simplify

/-!
# Steps of value numbering

Going past an instruction is a test of its shape followed by a total function. What is written for
the instruction keeps its result and its position.
-/

namespace Midend

open Lang

/-- An instruction fits a signature when it names as many operands, labels and functions as the
signature does and has a destination if the signature has a result. -/
theorem Lang.Signature.defect?_eq_none_iff (signature : Signature) (instr : Instruction) :
    signature.defect? instr = none ↔
      signature.args.length = instr.operands.args.length ∧
        signature.labels = instr.operands.labels.length ∧
        signature.funcs = instr.operands.funcs.length ∧
        signature.result.isSome = instr.dest?.isSome := by
  unfold Signature.defect?
  by_cases args : signature.args.length = instr.operands.args.length
  · by_cases labels : signature.labels = instr.operands.labels.length
    · by_cases funcs : signature.funcs = instr.operands.funcs.length
      · simp [args, labels, funcs]
      · simp [args, labels, funcs]
    · simp [args, labels]
  · simp [args]

/-- The signature of a commutative operation has two operands. -/
theorem Lang.ValueOp.signature?_of_isCommutative {op : ValueOp}
    (commutative : op.isCommutative = true) :
    ∃ signature, op.signature? = some signature ∧ signature.args.length = 2 := by
  cases op <;> first | exact ⟨_, rfl, rfl⟩ | cases commutative

/-- An expression lists the operands that it is given. -/
theorem Options.mem_arrange (options : Options) (op : ValueOp) (operands : List Nat)
    (operand : Nat) : operand ∈ options.arrange op operands ↔ operand ∈ operands := by
  unfold arrange
  split
  · exact (List.mergeSort_perm operands _).mem_iff
  · rfl

/-- Operands that may be taken in any order are listed alike in any order. -/
theorem Options.arrange_eq_of_perm {options : Options} {op : ValueOp}
    (unordered : (options.commutative && op.isCommutative) = true) {first second : List Nat}
    (perm : second.Perm first) : options.arrange op second = options.arrange op first := by
  have sorted (numbers : List Nat) :
      (numbers.mergeSort).Pairwise fun left right => decide (left ≤ right) = true :=
    List.pairwise_mergeSort (by simpa using fun _ _ _ => Nat.le_trans)
      (by simpa using Nat.le_total) numbers
  rw [arrange, arrange, if_pos unordered, if_pos unordered]
  refine List.Perm.eq_of_pairwise ?_ (sorted second) (sorted first) ?_
  · intro left right _ _ below above
    exact Nat.le_antisymm (of_decide_eq_true below) (of_decide_eq_true above)
  · exact (List.mergeSort_perm second _).trans (perm.trans (List.mergeSort_perm first _).symm)

/-- An operation that is not a copy of one operand has the number of its expression. -/
theorem Pool.numberOf_eq_intern (pool : Pool) {options : Options} {op : ValueOp}
    {operands : List Nat} (other : ¬(op = .id ∧ operands.length = 1)) :
    pool.numberOf options op operands = pool.intern (.apply op (options.arrange op operands)) := by
  rw [numberOf.eq_def]
  split
  · exact absurd ⟨rfl, rfl⟩ other
  · rfl

/-- What a step past an instruction gives once its shape has been found right. -/
def Pool.past (pool : Pool) (options : Options) (instr : Instruction) : Instruction × Pool :=
  let operands := pool.readAll instr.args
  match instr.result? with
  | none => (instr.mapArgs operands.2.preferred, operands.2)
  | some (dest, ty) =>
    let counted := operands.2.resultNumber options operands.1 instr
    (counted.2.replacement counted.1 dest ty instr, counted.2.assign dest counted.1)

/-- A step fails exactly at a numbered instruction that has not the shape of its operation. -/
theorem Pool.step_eq (pool : Pool) (options : Options) (instr : Instruction) :
    pool.step options instr =
      match instr.treatment with
      | .ignored => .ok (instr, pool)
      | .fresh => .ok (pool.past options instr)
      | .numbered =>
        match instr.defect? with
        | some defect => .error (.misshapen instr defect)
        | none => .ok (pool.past options instr) := by
  cases treated : instr.treatment with
  | ignored => simp [Pool.step, treated, pure, Except.pure]
  | fresh =>
    cases result : instr.result? <;>
      simp [Pool.step, Pool.past, treated, result, pure, Except.pure]
  | numbered =>
    cases defect : instr.defect? <;> cases result : instr.result? <;>
      simp [Pool.step, Pool.past, Instruction.checkShape, treated, defect, result, pure,
        Except.pure, bind, Except.bind]

/-- A step that succeeds leaves an instruction that is not looked at as it is, and otherwise has
found the shape of the instruction right. -/
theorem Pool.cases_of_step {pool next : Pool} {options : Options} {instr simplified : Instruction}
    (stepped : pool.step options instr = .ok (simplified, next)) :
    (instr.treatment = .ignored ∧ simplified = instr ∧ next = pool) ∨
      (instr.treatment ≠ .ignored ∧ (instr.treatment = .numbered → instr.defect? = none) ∧
        pool.past options instr = (simplified, next)) := by
  rw [Pool.step_eq] at stepped
  cases treated : instr.treatment with
  | ignored =>
    rw [treated] at stepped
    cases stepped
    exact .inl ⟨rfl, rfl, rfl⟩
  | fresh =>
    rw [treated] at stepped
    exact .inr ⟨nofun, nofun, Except.ok.inj stepped⟩
  | numbered =>
    rw [treated] at stepped
    cases shape : instr.defect? with
    | some defect =>
      rw [shape] at stepped
      cases stepped
    | none =>
      rw [shape] at stepped
      exact .inr ⟨nofun, fun _ => rfl, Except.ok.inj stepped⟩

/-- Behind an instruction without a result nothing has changed but what was read. -/
theorem Pool.past_of_none {pool : Pool} {options : Options} {instr : Instruction}
    (resultless : instr.result? = none) :
    pool.past options instr =
      (instr.mapArgs (pool.readAll instr.args).2.preferred, (pool.readAll instr.args).2) := by
  rw [past, resultless]

/-- Behind an instruction with a result its destination has the number of the result. -/
theorem Pool.past_of_some {pool : Pool} {options : Options} {instr : Instruction} {dest : String}
    {ty : Ty} (result : instr.result? = some (dest, ty)) :
    pool.past options instr =
      let operands := pool.readAll instr.args
      let counted := operands.2.resultNumber options operands.1 instr
      (counted.2.replacement counted.1 dest ty instr, counted.2.assign dest counted.1) := by
  rw [past, result]

/-- An instruction that is not looked at writes no variable. -/
theorem result?_of_ignored {instr : Instruction} (ignored : instr.treatment = .ignored) :
    instr.result? = none := by
  cases instr with
  | const => cases ignored
  | value op => cases op <;> cases ignored
  | effect => rfl

/-- Reading other variables does not change the result of an instruction. -/
@[simp] theorem result?_mapArgs (change : String → String) (instr : Instruction) :
    (instr.mapArgs change).result? = instr.result? := by
  cases instr <;> rfl

/-- Reading other variables does not change the place of an instruction. -/
@[simp] theorem pos?_mapArgs (change : String → String) (instr : Instruction) :
    (instr.mapArgs change).pos? = instr.pos? := by
  cases instr <;> rfl

/-- What an instruction is replaced by has its result and its place. -/
theorem Pool.keeps_replacement (pool : Pool) (number : Nat) {dest : String} {ty : Ty}
    {instr : Instruction} (result : instr.result? = some (dest, ty)) :
    (pool.replacement number dest ty instr).result? = instr.result? ∧
      (pool.replacement number dest ty instr).pos? = instr.pos? := by
  unfold Pool.replacement
  split
  · exact ⟨result.symm, rfl⟩
  · exact ⟨result.symm, rfl⟩
  · exact ⟨result?_mapArgs _ _, pos?_mapArgs _ _⟩

/-- A step keeps the result and the place of the instruction that it passes. -/
theorem Pool.keeps_of_step {pool next : Pool} {options : Options} {instr simplified : Instruction}
    (stepped : pool.step options instr = .ok (simplified, next)) :
    simplified.result? = instr.result? ∧ simplified.pos? = instr.pos? := by
  rcases cases_of_step stepped with ⟨-, rfl, -⟩ | ⟨-, -, passed⟩
  · exact ⟨rfl, rfl⟩
  · cases result : instr.result? with
    | none =>
      rw [past_of_none result, Prod.mk.injEq] at passed
      rw [← passed.1, result?_mapArgs, pos?_mapArgs, result]
      exact ⟨rfl, rfl⟩
    | some found =>
      rw [past_of_some result, Prod.mk.injEq] at passed
      rw [← passed.1, ← result]
      exact keeps_replacement _ _ result

end Midend
