import Midend.Proofs.DeadStore.Chain

/-!
# Snapshots of programs

The passes of a program show every function after the same number of its own passes, or after its
last one if it has had fewer. From one to the next, functions lose instructions that do no more than
store, and keep everything else.
-/

namespace Midend

open Lang

/-- A constant, or a value operation other than a call. -/
def Lang.Instruction.OnlyStores : Instruction → Prop
  | const .. => True
  | value op .. => op ≠ .call
  | effect .. => False

/-- A function put together again after so many passes of its own elimination, or after the last
one if that makes fewer. -/
def Lang.Function.IsSnapshot (options : Options) (pass : Nat) (function after : Function) : Prop :=
  ∃ own blocks, eliminateDeadStores function.blocks options = .ok own ∧
    (own[pass]? = some blocks ∨ own.length ≤ pass ∧ own.getLast? = some blocks) ∧
    after = function.withBlocks blocks

/-- Instructions without side effects only store. -/
theorem Lang.Instruction.onlyStores_of_pure {instr : Instruction}
    (pure : instr.hasSideEffects = false) : instr.OnlyStores := by
  cases instr with
  | const => trivial
  | value op => simpa [hasSideEffects, OnlyStores] using pure
  | effect => cases pure

/-- A body is thinned when nothing is left out. -/
theorem Thinned.refl (idle : Nat → Instruction → Prop) (place : Nat) (body : List Entry) :
    Thinned idle place body body := by
  induction body generalizing place with
  | nil => exact .nil
  | cons entry body ih => exact .keep (ih (place + 1))

/-- A pass leaves out instructions that only store. -/
theorem PassesTo.thinned {before after : List Block} (passes : PassesTo before after) :
    Thinned (fun _ => Instruction.OnlyStores) 0 (before.flatMap Block.code)
      (after.flatMap Block.code) := by
  obtain ⟨dead, computed, -, rfl⟩ := passes
  obtain ⟨successors, table⟩ := exists_successorTable_of_deadStores computed
  refine thinned_removeStores before dead fun index block offset instr found within member => ?_
  obtain ⟨-, other, store, name, stands, isStore, -, pure, -⟩ :=
    (mem_deadStores_iff table computed index offset).1 member
  obtain rfl := Option.some.inj (found.symm.trans stands)
  obtain rfl := Option.some.inj (within.symm.trans isStore)
  exact Instruction.onlyStores_of_pure pure

namespace FunctionPasses.Eliminate

variable {one : FunctionPasses} {options : Options} {function : Function}

/-- There is a first pass, with the blocks of the function. -/
theorem head?_eq (eliminate : one.Eliminate options function) :
    one.passes.head? = some function.blocks :=
  (eliminates_of_eliminateDeadStores eliminate.succeeded).head?_eq

/-- The last pass is the result. -/
theorem getLast?_eq (eliminate : one.Eliminate options function) :
    one.passes.getLast? = some (lastPass one.passes) :=
  (eliminates_of_eliminateDeadStores eliminate.succeeded).getLast?_eq

/-- From the last pass on the function is the result. -/
theorem after_of_le (eliminate : one.Eliminate options function) {pass : Nat}
    (behind : one.passes.length ≤ pass + 1) :
    one.after pass = function.withBlocks (lastPass one.passes) := by
  rw [FunctionPasses.after, eliminate.function_eq]
  congr 1
  by_cases last : one.passes.length = pass + 1
  · have stands := eliminate.getLast?_eq
    rw [List.getLast?_eq_getElem?, last, Nat.add_sub_cancel] at stands
    rw [stands, Option.getD_some]
  · rw [List.getElem?_eq_none (by omega), Option.getD_none]

/-- A further pass leaves out instructions that only store. -/
theorem thinned (eliminate : one.Eliminate options function) (pass : Nat) :
    Thinned (fun _ => Instruction.OnlyStores) 0 (one.after pass).body
      (one.after (pass + 1)).body := by
  by_cases more : pass + 1 < one.passes.length
  · have chain := (eliminates_of_eliminateDeadStores eliminate.succeeded).isChain
    have next := (List.isChain_iff_getElem.1 chain pass more).thinned
    rw [FunctionPasses.after, FunctionPasses.after, List.getElem?_eq_getElem more,
      List.getElem?_eq_getElem (Nat.lt_of_succ_lt more)]
    exact next
  · have behind : one.passes.length ≤ pass + 1 := Nat.le_of_not_lt more
    rw [eliminate.after_of_le behind, eliminate.after_of_le (Nat.le_succ_of_le behind)]
    exact .refl _ 0 _

end FunctionPasses.Eliminate

/-- After any number of passes a function has its header. -/
theorem Lang.Function.IsSnapshot.eq_with {options : Options} {pass : Nat}
    {function after : Function} (snapshot : function.IsSnapshot options pass after) :
    after = { function with body := after.body } := by
  obtain ⟨own, blocks, -, -, rfl⟩ := snapshot
  rfl

namespace Elimination

variable {options : Options} {functions : List Function} {results : List FunctionPasses}

end Elimination

end Midend
