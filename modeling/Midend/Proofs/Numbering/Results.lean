import Midend.Proofs.Numbering.Reading
import Midend.Proofs.Numbering.Step

/-!
# Numbered results

A result has the number of a constant, of what is copied, of an operation, or a fresh one, whichever
variables the operands are read from. Numbering it changes nothing about the variables, and a step
keeps pools sound.
-/

namespace Midend

open Lang

namespace Lang.Instruction

/-- Reading other variables leaves the treatment as it is. -/
@[simp] theorem treatment_mapArgs (change : String → String) (instr : Instruction) :
    (instr.mapArgs change).treatment = instr.treatment := by
  cases instr <;> rfl

/-- The variables read are the changed ones. -/
@[simp] theorem args_mapArgs (change : String → String) (instr : Instruction) :
    (instr.mapArgs change).args = instr.args.map change := by
  cases instr <;> rfl

/-- Changing the variables read by a change that has been made already makes no difference. -/
theorem mapArgs_mapArgs {change : String → String}
    (settled : ∀ name, change (change name) = change name) (instr : Instruction) :
    (instr.mapArgs change).mapArgs change = instr.mapArgs change := by
  cases instr <;> simp [mapArgs, settled]

/-- An instruction stays as it is when the variables that it reads do. -/
theorem mapArgs_eq_self_iff {change : String → String} {instr : Instruction} :
    instr.mapArgs change = instr ↔ ∀ name ∈ instr.args, change name = name := by
  have mapped (operands : Operands) :
      ({ operands with args := operands.args.map change } : Operands) = operands ↔
        ∀ name ∈ operands.args, change name = name := by
    obtain ⟨args, funcs, labels⟩ := operands
    rw [Operands.mk.injEq, and_iff_left ⟨rfl, rfl⟩]
    simpa using List.map_inj_left (l := args) (f := change) (g := id)
  cases instr with
  | const => simp [mapArgs, args, operands]
  | value => simpa [mapArgs, args, operands] using mapped _
  | effect => simpa [mapArgs, args, operands] using mapped _

/-- Reading other variables leaves an instruction of the right shape. -/
theorem defect?_mapArgs {change : String → String} {instr : Instruction}
    (shaped : instr.defect? = none) : (instr.mapArgs change).defect? = none := by
  have signature : (instr.mapArgs change).signature? = instr.signature? := by cases instr <;> rfl
  rw [defect?, Option.bind_eq_none_iff] at shaped ⊢
  intro found known
  rw [signature] at known
  have fits := (found.defect?_eq_none_iff instr).1 (shaped found known)
  rw [Signature.defect?_eq_none_iff]
  cases instr <;> simpa [mapArgs, operands, dest?, result?] using fits

end Lang.Instruction

/-- A number has a literal when its expression is that constant. -/
theorem Table.literal?_eq_some_iff (table : Table) (number : Nat) (literal : Literal) :
    table.literal? number = some literal ↔ table.expr? number = some (.constant literal) := by
  unfold Table.literal?
  split
  next other found => simp [found]
  next other => exact ⟨nofun, fun found => absurd found (other literal)⟩

namespace Pool

variable {pool next : Pool} {options : Options} {instr simplified : Instruction}

/-- Reading other variables does not change how the result is numbered. -/
theorem resultNumber_mapArgs (pool : Pool) (options : Options) (operands : List Nat)
    (change : String → String) (instr : Instruction) :
    pool.resultNumber options operands (instr.mapArgs change) =
      pool.resultNumber options operands instr := by
  cases instr <;> rfl

/-- A result has the number of a constant, of the one operand, of an operation on the operands, or a
fresh one. -/
theorem cases_of_resultNumber (pool : Pool) (options : Options) (operands : List Nat)
    (instr : Instruction) :
    (∃ literal, instr.args = [] ∧
        pool.resultNumber options operands instr = pool.intern (.constant literal)) ∨
      (∃ operand, operands = [operand] ∧
        pool.resultNumber options operands instr = (operand, pool)) ∨
      (∃ op, pool.resultNumber options operands instr =
        pool.intern (.apply op (options.arrange op operands))) ∨
      pool.resultNumber options operands instr = pool.fresh := by
  cases instr with
  | const dest ty literal pos => exact .inl ⟨literal, rfl, rfl⟩
  | effect => exact .inr (.inr (.inr rfl))
  | value op dest ty given pos =>
    rw [resultNumber]
    split
    · rw [numberOf.eq_def]
      split
      next _ operand _ => exact .inr (.inl ⟨operand, rfl, rfl⟩)
      next => exact .inr (.inr (.inl ⟨op, rfl⟩))
    · exact .inr (.inr (.inr rfl))

/-- Numbering a result changes nothing about the variables. -/
theorem preferred_resultNumber (pool : Pool) (options : Options) (operands : List Nat)
    (instr : Instruction) :
    (pool.resultNumber options operands instr).2.preferred = pool.preferred := by
  rcases pool.cases_of_resultNumber options operands instr with
    ⟨_, -, same⟩ | ⟨_, -, same⟩ | ⟨_, same⟩ | same
  all_goals rw [same]
  · unfold Pool.intern
    rfl
  · unfold Pool.intern
    rfl
  · rfl

/-- The number of a constant has its literal, and the number of any other expression has none. -/
theorem Consistent.literal?_intern (consistent : pool.Consistent) (expr : Expr) :
    (pool.intern expr).2.table.literal? (pool.intern expr).1 =
      match expr with
      | .constant literal => some literal
      | _ => none := by
  rw [Table.literal?, consistent.expr?_intern]
  cases expr <;> rfl

/-- Numbering a result keeps a pool sound. -/
theorem Sound.resultNumber (sound : pool.Sound) (options : Options) {operands : List Nat}
    (bounds : ∀ operand ∈ operands, operand < pool.table.size) (instr : Instruction) :
    (pool.resultNumber options operands instr).2.Sound ∧
      (pool.resultNumber options operands instr).1 <
        (pool.resultNumber options operands instr).2.table.size := by
  have interned (expr : Expr) : (pool.intern expr).1 < (pool.intern expr).2.table.size :=
    Table.lt_size_of_expr? (sound.consistent.expr?_intern expr)
  rcases pool.cases_of_resultNumber options operands instr with
    ⟨literal, -, same⟩ | ⟨operand, rfl, same⟩ | ⟨op, same⟩ | same
  · rw [same]
    exact ⟨sound.intern trivial nofun, interned _⟩
  · rw [same]
    exact ⟨sound, bounds operand List.mem_cons_self⟩
  · rw [same]
    refine ⟨sound.intern (fun operand member => bounds operand ?_) nofun, interned _⟩
    exact (options.mem_arrange op operands operand).1 member
  · rw [same]
    refine ⟨sound.fresh, ?_⟩
    rw [Pool.fresh, Table.fresh, Table.size_append]
    exact Nat.lt_succ_self _

/-- Every variable that is read has a number. -/
theorem length_readAll (pool : Pool) (names : List String) :
    (pool.readAll names).1.length = names.length := by
  induction names generalizing pool with
  | nil => rfl
  | cons name names ih => rw [readAll_cons, List.length_cons, List.length_cons, ih]

/-- A step past an instruction that is looked at and has the shape of its operation. -/
theorem step_eq_past (pool : Pool) (options : Options) (looked : instr.treatment ≠ .ignored)
    (shaped : instr.treatment = .numbered → instr.defect? = none) :
    pool.step options instr = .ok (pool.past options instr) := by
  rw [step_eq]
  cases treated : instr.treatment with
  | ignored => exact absurd treated looked
  | fresh => rfl
  | numbered => rw [shaped treated]

/-- A step keeps pools sound. -/
theorem Sound.step (sound : pool.Sound)
    (stepped : pool.step options instr = .ok (simplified, next)) : next.Sound := by
  rcases cases_of_step stepped with ⟨-, -, rfl⟩ | ⟨-, -, passed⟩
  · exact sound
  · obtain ⟨reads, bounds⟩ := sound.readsOn_readAll instr.args
    cases result : instr.result? with
    | none =>
      rw [past_of_none result, Prod.mk.injEq] at passed
      rw [← passed.2]
      exact reads.sound
    | some found =>
      rw [past_of_some result, Prod.mk.injEq] at passed
      obtain ⟨counted, bound⟩ := reads.sound.resultNumber options bounds instr
      rw [← passed.2]
      exact counted.assign _ bound

end Pool

end Midend
