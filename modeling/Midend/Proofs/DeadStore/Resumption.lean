import Midend.Proofs.DeadStore.Bodies

/-!
# Elimination resumed

A pass over laid out blocks does to their code what can be told from the code. When the passes over
a function are cut short, and the function is put together and split into blocks anew, elimination
therefore goes on where it has stopped, although blocks may have vanished by then, another one may
stand first, and invented names may have changed.
-/

namespace Midend

open Lang

/-- A body is left without its dead instructions, of which there are some. -/
def SiftsTo (before after : List Entry) : Prop :=
  (∃ number, DeadIn before number) ∧
    Pruned (fun place _ => ¬DeadIn before (numberAt before place))
      (fun place _ => DeadIn before (numberAt before place)) 0 before after

/-- A body is left without its dead instructions in one way. -/
theorem siftsTo_rightUnique : Relator.RightUnique SiftsTo :=
  fun _ _ _ one another => one.2.unique (fun _ _ dead alive => alive dead) another.2

/-- What can be made of a body until no instruction of it is dead is one body. -/
theorem eq_of_siftsTo {body first second : List Entry}
    (one : Relation.ReflTransGen SiftsTo body first)
    (another : Relation.ReflTransGen SiftsTo body second)
    (settled : ∀ number, ¬DeadIn first number) (settledToo : ∀ number, ¬DeadIn second number) :
    first = second := by
  have stays {source target : List Entry} (still : ∀ number, ¬DeadIn source number)
      (onward : Relation.ReflTransGen SiftsTo source target) : source = target := by
    rcases onward.cases_head with same | ⟨_, ⟨⟨number, dead⟩, -⟩, -⟩
    · exact same
    · exact absurd dead (still number)
  rcases Relation.ReflTransGen.total_of_right_unique siftsTo_rightUnique one another with
    onward | onward
  · exact stays settled onward
  · exact (stays settledToo onward).symm

section Laid

variable {blocks next : List Block}

/-- Laid out blocks without a dead store have no dead instruction. -/
theorem Laid.not_deadIn (laid : Laid blocks) (computed : deadStores blocks = .ok [])
    (number : Nat) : ¬DeadIn (blocks.flatMap Block.code) number := by
  intro dead
  have stands := dead
  obtain ⟨-, instr, -, stands, -⟩ := stands
  rw [filterMap_flatMap_code] at stands
  obtain ⟨index, block, offset, found, inside, rfl⟩ :=
    exists_offsetOf Block.instrs blocks (List.getElem?_eq_some_iff.1 stands).1
  obtain ⟨successors, table⟩ := laid.exists_successorTable
  have isDead := (laid.isDeadStore_iff found inside).2 dead
  exact absurd ((mem_deadStores_iff table computed index offset).2 isDead) List.not_mem_nil

/-- A pass over laid out blocks leaves their code without its dead instructions. -/
theorem Laid.siftsTo (laid : Laid blocks) (passes : PassesTo blocks next) :
    SiftsTo (blocks.flatMap Block.code) (next.flatMap Block.code) := by
  obtain ⟨dead, computed, some, rfl⟩ := passes
  obtain ⟨successors, table⟩ := laid.exists_successorTable
  constructor
  · obtain ⟨⟨index, offset⟩, others, rfl⟩ := List.exists_cons_of_ne_nil some
    have isDead := (mem_deadStores_iff table computed index offset).1 List.mem_cons_self
    have stands := isDead
    obtain ⟨-, block, instr, -, found, within, -⟩ := stands
    have inside := (List.getElem?_eq_some_iff.1 within).1
    exact ⟨_, (laid.isDeadStore_iff found inside).1 isDead⟩
  · refine pruned_zipIdx blocks dead 0 0 fun index block offset instr found within => ?_
    have inside := (List.getElem?_eq_some_iff.1 within).1
    rw [MayGo, Nat.zero_add, Nat.zero_add, numberAt_instr found (Nat.le_of_lt inside),
      ← laid.isDeadStore_iff found inside, ← mem_deadStores_iff table computed]
    split <;> assumption

/-- Passes over laid out blocks keep them laid out, and leave their code as passes over the code
do. -/
theorem Laid.siftsTo_lastPass {allowed : Nat} {passes : List (List Block)} (laid : Laid blocks)
    (eliminates : Eliminates allowed blocks passes) :
    Laid (lastPass passes) ∧ Relation.ReflTransGen SiftsTo (blocks.flatMap Block.code)
      ((lastPass passes).flatMap Block.code) := by
  induction eliminates with
  | exhausted => exact ⟨laid, .refl⟩
  | settled => exact ⟨laid, .refl⟩
  | pass first others ih =>
    have step := laid.siftsTo first
    obtain ⟨dead, computed, -, rfl⟩ := first
    obtain ⟨still, later⟩ := ih (laid.removeStores computed)
    rw [others.lastPass_cons]
    exact ⟨still, .head step later⟩

end Laid

/-- A function whose body has lost dead instructions is still well-labelled. -/
theorem Lang.Function.WellLabelled.of_siftsTo {function : Function}
    (labelled : function.WellLabelled) {body : List Entry}
    (sifts : Relation.ReflTransGen SiftsTo function.body body) :
    ({ function with body } : Function).WellLabelled := by
  have kept : body.filterMap Entry.label? = function.body.filterMap Entry.label? ∧
      body.Sublist function.body := by
    induction sifts with
    | refl => exact ⟨rfl, .refl _⟩
    | tail _ step ih =>
      exact ⟨step.2.filterMap_label?.trans ih.1, step.2.sublist.trans ih.2⟩
  have labels : ({ function with body } : Function).labels = function.labels := by
    have view (entries : List Entry) :
        labelsOf entries = (entries.filterMap Entry.label?).map Prod.fst := by
      rw [labelsOf, List.map_filterMap]
    rw [Function.labels, Function.labels, view, view, kept.1]
  constructor
  · rw [labels]
    exact labelled.nodup
  · rw [labels]
    exact fun instr member => labelled.declared instr (kept.2.subset member)
  · rw [labels]
    exact labelled.not_start
  · rw [labels]
    exact labelled.not_behind

/-- Elimination without a limit takes a function that has been put together from the last of some
passes to where it takes the function itself. -/
theorem Lang.Function.WellLabelled.resumes {function : Function}
    (labelled : function.WellLabelled) (options limited : Options)
    (unlimited : options.maxPasses = none) {capped uncapped resumed : List (List Block)}
    (first : eliminateDeadStores function.blocks limited = .ok capped)
    (whole : eliminateDeadStores function.blocks options = .ok uncapped)
    (again : eliminateDeadStores (function.withBlocks (lastPass capped)).blocks options =
      .ok resumed) :
    (function.withBlocks (lastPass capped)).withBlocks (lastPass resumed) =
      function.withBlocks (lastPass uncapped) := by
  obtain ⟨-, early⟩ := labelled.laid.siftsTo_lastPass (eliminates_of_eliminateDeadStores first)
  obtain ⟨final, straight⟩ :=
    labelled.laid.siftsTo_lastPass (eliminates_of_eliminateDeadStores whole)
  rw [flatMap_code_blocks] at early straight
  -- The function put together may have other blocks than those of the last pass; their code is the
  -- same.
  have rebuilt : (function.withBlocks (lastPass capped)).WellLabelled := labelled.of_siftsTo early
  obtain ⟨finalToo, late⟩ :=
    rebuilt.laid.siftsTo_lastPass (eliminates_of_eliminateDeadStores again)
  rw [flatMap_code_blocks] at late
  have settled := finalToo.not_deadIn (deadStores_of_eliminateDeadStores unlimited again)
  have settledToo := final.not_deadIn (deadStores_of_eliminateDeadStores unlimited whole)
  have same := eq_of_siftsTo (early.trans late) straight settled settledToo
  rw [Function.withBlocks, Function.withBlocks, Function.withBlocks, same]

/-- The function after the last of its passes. -/
def FunctionPasses.result (one : FunctionPasses) : Function :=
  one.function.withBlocks (lastPass one.passes)

/-- The dead stores of well-labelled functions can be eliminated. -/
theorem exists_elimination (program : Program) (options : Options)
    (labelled : ∀ function ∈ program.functions, function.WellLabelled) :
    ∃ results, List.Forall₂ (fun function one => one.Eliminate options function)
        program.functions results ∧
      program.eliminateDeadStores options = .ok (.ofFunctions results) := by
  obtain ⟨results, succeeded⟩ := exists_mapM_eq_ok
    (fun function : Function => do
      return ({ function, passes := ← eliminateDeadStores function.blocks options } :
        FunctionPasses)) program.functions
    fun function member => by
      obtain ⟨passes, -, made, -⟩ := exists_eliminateDeadStores options
        (labelled function member).laid.exists_successorTable
      exact ⟨{ function, passes }, bind_eq_ok_iff.2 ⟨passes, made, rfl⟩⟩
  have eliminated : program.eliminateDeadStores options = .ok (.ofFunctions results) :=
    bind_eq_ok_iff.2 ⟨results, succeeded, rfl⟩
  obtain ⟨others, along, same⟩ := eliminateDeadStores_eq_ok_iff.1 eliminated
  exact ⟨others, along, eliminated.trans (congrArg _ same)⟩

/-- The functions after the last of some passes are well-labelled. -/
theorem wellLabelled_result {functions : List Function} {options : Options}
    {results : List FunctionPasses} (labelled : ∀ function ∈ functions, function.WellLabelled)
    (along : List.Forall₂ (fun function one => one.Eliminate options function) functions results) :
    ∀ function ∈ results.map FunctionPasses.result, function.WellLabelled := by
  intro function member
  obtain ⟨one, among, rfl⟩ := List.mem_map.1 member
  obtain ⟨origin, inside, eliminate⟩ := exists_of_forall₂ along.flip among
  have sifts := ((labelled origin inside).laid.siftsTo_lastPass
    (eliminates_of_eliminateDeadStores eliminate.succeeded)).2
  rw [flatMap_code_blocks] at sifts
  rw [FunctionPasses.result, eliminate.function_eq]
  exact (labelled origin inside).of_siftsTo sifts

/-- Functions resumed come to where they come without a stop. -/
theorem map_result_eq {functions : List Function} {options limited : Options}
    {capped uncapped resumed : List FunctionPasses} (unlimited : options.maxPasses = none)
    (labelled : ∀ function ∈ functions, function.WellLabelled)
    (first : List.Forall₂ (fun function one => one.Eliminate limited function) functions capped)
    (whole : List.Forall₂ (fun function one => one.Eliminate options function) functions uncapped)
    (again : List.Forall₂ (fun function one => one.Eliminate options function)
      (capped.map FunctionPasses.result) resumed) :
    resumed.map FunctionPasses.result = uncapped.map FunctionPasses.result := by
  induction first generalizing uncapped resumed with
  | nil =>
    cases whole
    cases again
    rfl
  | @cons function one functions others eliminate _ ih =>
    obtain _ | ⟨eliminateToo, wholes⟩ := whole
    obtain _ | ⟨eliminateAgain, agains⟩ := again
    have later := ih (fun other member => labelled other (List.mem_cons_of_mem _ member)) wholes
      agains
    have resumes := eliminateAgain.succeeded
    rw [FunctionPasses.result, eliminate.function_eq] at resumes
    rw [List.map_cons, List.map_cons, later, FunctionPasses.result, FunctionPasses.result,
      eliminateAgain.function_eq, eliminateToo.function_eq, FunctionPasses.result,
      eliminate.function_eq, (labelled function List.mem_cons_self).resumes options limited
        unlimited eliminate.succeeded eliminateToo.succeeded resumes]

/-- The passes of an elimination form one chain, whatever limit is set. Over blocks whose successors
are found there are passes, of which the first is the blocks and each later one is the one before
without its dead stores; without a limit the last one has no dead store, and with a limit the passes
are the first of those without. Elimination of a program of well-labelled functions that has been
cut short therefore comes, when it is taken up again, to the program that it comes to at once. -/
theorem eliminateDeadStores_resumes :
    (∀ (blocks : List Block) (options : Options),
      (∃ successors, successorTable blocks = .ok successors) →
      ∃ passes uncapped, eliminateDeadStores blocks options = .ok passes ∧
        eliminateDeadStores blocks { options with maxPasses := none } = .ok uncapped ∧
        passes.head? = some blocks ∧ passes.IsChain LosesDeadStores ∧
        passes.getLast? = some (lastPass passes) ∧
        (options.maxPasses = none → deadStores (lastPass passes) = .ok []) ∧
        ∀ most, options.maxPasses = some most → passes = uncapped.take (most + 1)) ∧
    ∀ (program : Program) (options : Options) (most : Nat),
      (∀ function ∈ program.functions, function.WellLabelled) →
      ∃ capped uncapped resumed,
        program.eliminateDeadStores { options with maxPasses := some most } = .ok capped ∧
        program.eliminateDeadStores { options with maxPasses := none } = .ok uncapped ∧
        capped.converged.eliminateDeadStores { options with maxPasses := none } = .ok resumed ∧
        resumed.converged = uncapped.converged := by
  constructor
  · intro blocks options resolved
    obtain ⟨passes, uncapped, made, whole, cut⟩ := exists_eliminateDeadStores options resolved
    have eliminates := eliminates_of_eliminateDeadStores made
    exact ⟨passes, uncapped, made, whole, eliminates.head?_eq,
      eliminates.isChain.imp fun _ _ passes => passes.losesDeadStores, eliminates.getLast?_eq,
      fun unlimited => deadStores_of_eliminateDeadStores unlimited made, cut⟩
  · intro program options most labelled
    obtain ⟨first, alongFirst, made⟩ :=
      exists_elimination program { options with maxPasses := some most } labelled
    obtain ⟨all, alongAll, whole⟩ :=
      exists_elimination program { options with maxPasses := none } labelled
    obtain ⟨rest, alongRest, again⟩ :=
      exists_elimination { functions := first.map FunctionPasses.result }
        { options with maxPasses := none } (wellLabelled_result labelled alongFirst)
    refine ⟨_, _, _, made, whole, again, ?_⟩
    exact congrArg Program.mk (map_result_eq rfl labelled alongFirst alongAll alongRest)

/-- A loop behind a store that is never read, which has a store that is dead once the next one is
left out. -/
def deadEntry : Function where
  name := "main"
  params := [⟨"going", .bool⟩]
  body := [
    .instr (.const "unread" .int (.int 0) none),
    .label "top" none,
    .instr (.const "first" .int (.int 1) none),
    .instr (.value .id "second" .int { args := ["first"] } none),
    .instr (.effect .br { args := ["going"], labels := ["top", "out"] } none),
    .label "out" none,
    .instr (.effect .print { args := ["going"] } none)]

/-- The loop is well-labelled. -/
theorem deadEntry_wellLabelled : deadEntry.WellLabelled :=
  Function.wellLabelled_of_initial 'm' (by decide) (by decide) (by decide) (by decide)

/-- One pass over the loop leaves out what stands in front of it, so that the function begins with
another block, and a store in it. Taken up again, elimination comes to the function without any dead
store. -/
theorem eliminateDeadStores_resumes_deadEntry :
    (∃ passes uncapped, eliminateDeadStores deadEntry.blocks { maxPasses := some 1 } = .ok passes ∧
      eliminateDeadStores deadEntry.blocks {} = .ok uncapped ∧ passes = uncapped.take 2 ∧
      passes.IsChain LosesDeadStores) ∧
    ∃ capped uncapped resumed,
      ({ functions := [deadEntry] } : Program).eliminateDeadStores { maxPasses := some 1 } =
        .ok capped ∧
      ({ functions := [deadEntry] } : Program).eliminateDeadStores {} = .ok uncapped ∧
      capped.converged.eliminateDeadStores {} = .ok resumed ∧
      resumed.converged = uncapped.converged := by
  obtain ⟨blocks, programs⟩ := eliminateDeadStores_resumes
  constructor
  · obtain ⟨passes, uncapped, made, whole, -, chain, -, -, cut⟩ :=
      blocks deadEntry.blocks { maxPasses := some 1 }
        deadEntry_wellLabelled.laid.exists_successorTable
    exact ⟨passes, uncapped, made, whole, cut 1 rfl, chain⟩
  · exact programs { functions := [deadEntry] } {} 1 fun function member => by
      rw [List.mem_singleton.1 member]
      exact deadEntry_wellLabelled

end Midend
