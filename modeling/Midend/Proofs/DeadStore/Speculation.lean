import Midend.Proofs.DeadStore.Passes
import Mathlib.Data.List.Chain

/-!
# Dead stores and speculation

A guard that fails sends control to its label. The blocks do not know of it, so that elimination
looks at the paths on which every guard holds: a store from which such a path leads to a read stays.
A store that is read only where a guard has failed may go.
-/

namespace Midend

open Lang Execution

/-- The labels that a guard passes control to when it fails. -/
def Lang.Instruction.failureTargets : Instruction → List String
  | .effect .guard operands _ => operands.labels
  | _ => []

/-- A way through the body, on which guards fail a number of times, leads from a place to an
instruction that reads a variable, without another one that writes it in front. -/
inductive ReadsAhead (body : List Entry) (name : String) : (failures : Nat) → (place : Nat) → Prop
  | read {place : Nat} {instr : Instruction} (found : body[place]? = some (.instr instr))
    (reads : name ∈ instr.args) : ReadsAhead body name 0 place
  | onward {failures place next : Nat}
    (keeps : ∀ instr, body[place]? = some (.instr instr) → instr.dest? ≠ some name)
    (follows : next ∈ placesBehind body place) (ahead : ReadsAhead body name failures next) :
    ReadsAhead body name failures place
  | failure {failures place next : Nat} {guard : Instruction} {label : String}
    (found : body[place]? = some (.instr guard)) (target : label ∈ guard.failureTargets)
    (declared : next ∈ declarations label body) (ahead : ReadsAhead body name failures next) :
    ReadsAhead body name (failures + 1) place

/-- Where no guard fails, a variable is live exactly when a read is ahead. -/
theorem readsAhead_zero_iff (body : List Entry) (name : String) (place : Nat) :
    ReadsAhead body name 0 place ↔ Live body name place := by
  constructor
  · intro ahead
    -- The induction is on the way, so that the number of failures has to vary along it.
    generalize noFailures : 0 = failures at ahead
    induction ahead with
    | read found reads => exact .read found reads
    | onward keeps follows _ ih => exact .later keeps follows (ih noFailures)
    | failure => cases noFailures
  · intro live
    induction live with
    | read found reads => exact .read found reads
    | later keeps follows _ ih => exact .onward keeps follows ih

/-- In a body without guards no guard fails. -/
theorem ReadsAhead.failures_eq_zero {body : List Entry} {name : String} {failures place : Nat}
    (ahead : ReadsAhead body name failures place)
    (unguarded : ∀ instr, .instr instr ∈ body → instr.failureTargets = []) : failures = 0 := by
  induction ahead with
  | read => rfl
  | onward _ _ _ ih => exact ih
  | failure found target =>
    rw [unguarded _ (List.mem_of_getElem? found)] at target
    cases target

/-- A pass leaves out stores, and from none of them does a way on which every guard holds lead to a
read. -/
def SparesReads (before after : List Block) : Prop :=
  ∃ stores, after = removeStores before stores ∧
    ∀ (index offset : Nat) (block : Block) (instr : Instruction), before[index]? = some block →
      block.instrs[offset]? = some instr → (index, offset) ∈ stores →
      ∃ name, instr.dest? = some name ∧ ∀ failures,
        ReadsAhead (before.flatMap Block.code) name failures
          (startOf before index + (block.width + offset) + 1) → 0 < failures

/-- One pass over laid out blocks spares what is read while guards hold. -/
theorem Laid.sparesReads {blocks : List Block} (laid : Laid blocks) {dead : List (Nat × Nat)}
    (computed : deadStores blocks = .ok dead) :
    SparesReads blocks (Midend.removeStores blocks dead) := by
  refine ⟨dead, rfl, fun index offset block instr found within member => ?_⟩
  obtain ⟨-, name, writes, unread⟩ := laid.isIdle_of_mem computed found within member
  refine ⟨name, writes, fun failures ahead => Nat.pos_of_ne_zero fun none => ?_⟩
  rw [none, readsAhead_zero_iff] at ahead
  exact unread ahead

/-- Passes over laid out blocks start with these blocks, and each spares what is read while guards
hold. -/
theorem Laid.isChain_passes {blocks : List Block} (laid : Laid blocks) {allowed : Nat}
    {passes : List (List Block)} (eliminated : eliminationPasses allowed blocks = .ok passes) :
    passes.head? = some blocks ∧ passes.IsChain SparesReads := by
  induction allowed generalizing blocks passes with
  | zero =>
    obtain ⟨dead, computed⟩ := laid.exists_deadStores
    rw [eliminationPasses, computed] at eliminated
    obtain rfl := Except.ok.inj eliminated
    exact ⟨rfl, .singleton _⟩
  | succ allowed ih =>
    obtain ⟨dead, computed⟩ := laid.exists_deadStores
    obtain ⟨others, succeeded, -⟩ := (laid.removeStores computed).exists_passes allowed
    rw [eliminationPasses, computed] at eliminated
    simp only [bind, Except.bind, succeeded, pure, Except.pure] at eliminated
    split at eliminated
    · obtain rfl := Except.ok.inj eliminated
      exact ⟨rfl, .singleton _⟩
    · obtain rfl := Except.ok.inj eliminated
      obtain ⟨first, chain⟩ := ih (laid.removeStores computed) succeeded
      refine ⟨rfl, List.isChain_cons.2 ⟨fun next isNext => ?_, chain⟩⟩
      obtain rfl := Option.some.inj (first.symm.trans isNext)
      exact laid.sparesReads computed

/-- Eliminating the dead stores of a well-labelled function succeeds under any options. In every
pass, a way from a store that is left out to a read of its variable, with no store in between, runs
through a guard that fails. -/
theorem eliminateDeadStores_sparesReads (function : Function) (options : Options)
    (labelled : function.WellLabelled) :
    ∃ passes, eliminateDeadStores function.blocks options = .ok passes ∧
      passes.head? = some function.blocks ∧ passes.IsChain SparesReads := by
  obtain ⟨passes, succeeded, -⟩ := labelled.exists_passes options
  exact ⟨passes, succeeded, labelled.laid.isChain_passes succeeded⟩

/-- A function that reads a store only where its guard fails, and replaces it where the guard
holds. -/
def readOnFailure : Function where
  name := "main"
  params := [⟨"c", .bool⟩]
  body := [
    .instr (.const "x" .int (.int 1) none),
    .instr (.effect .guard { args := ["c"], labels := ["fail"] } none),
    .instr (.const "x" .int (.int 2) none),
    .instr (.effect .print { args := ["x"] } none),
    .instr (.effect .ret {} none),
    .label "fail" none,
    .instr (.effect .print { args := ["x"] } none)]

/-- The function is well-labelled. -/
theorem readOnFailure_wellLabelled : readOnFailure.WellLabelled :=
  Function.wellLabelled_of_initial 'm' (by decide) (by decide) (by decide) (by decide)

/-- Elimination makes one pass over the function, which leaves nothing out that is read while the
guard holds. -/
theorem eliminateDeadStores_sparesReads_readOnFailure :
    readOnFailure.WellLabelled ∧ ∃ passes,
      eliminateDeadStores readOnFailure.blocks {} = .ok passes ∧ passes.length = 2 ∧
        passes.IsChain SparesReads := by
  obtain ⟨passes, succeeded, -, spared⟩ :=
    eliminateDeadStores_sparesReads readOnFailure {} readOnFailure_wellLabelled
  have counted : (eliminateDeadStores readOnFailure.blocks {}).map List.length = .ok 2 := by
    decide +kernel
  rw [succeeded] at counted
  exact ⟨readOnFailure_wellLabelled, passes, succeeded, Except.ok.inj counted, spared⟩

/-- A store may be left out that is read where a guard has failed, although control starts at the
store, the label of the guard is declared and labels are used as they should be. -/
theorem failedGuard_losesStore :
    readOnFailure.WellLabelled ∧
      (∀ instr ∈ readOnFailure.body.filterMap Entry.instr?, ∀ label ∈ instr.failureTargets,
        label ∈ readOnFailure.labels) ∧
      readOnFailure.body[0]? = some (.instr (.const "x" .int (.int 1) none)) ∧
      eliminateDeadStores readOnFailure.blocks {} =
        .ok [readOnFailure.blocks, removeStores readOnFailure.blocks [(0, 0)]] ∧
      (removeStores readOnFailure.blocks [(0, 0)]).flatMap Block.code = readOnFailure.body.tail ∧
      ReadsAhead readOnFailure.body "x" 1 1 := by
  refine ⟨readOnFailure_wellLabelled, by decide, rfl, by decide +kernel, by decide +kernel, ?_⟩
  have guarded : readOnFailure.body[1]? =
      some (.instr (.effect .guard { args := ["c"], labels := ["fail"] } none)) := rfl
  have printed : readOnFailure.body[6]? = some (.instr (.effect .print { args := ["x"] } none)) :=
    rfl
  have ahead : ReadsAhead readOnFailure.body "x" 0 5 := by
    refine .onward (fun instr found => ?_) (by decide) (.read printed (by decide))
    cases found
  have declared : 5 ∈ declarations "fail" readOnFailure.body := by decide
  exact .failure guarded List.mem_cons_self declared ahead

end Midend
