import Midend.Proofs.Dataflow.Dominance
import Midend.Proofs.Dataflow.Reaching
import Mathlib.Data.Set.Card

/-!
# Termination

Reaching definitions and dominance end on every graph that is made from blocks, whatever is seeded
and in whatever order nodes are visited. There is one visit for the root and, for each edge, at most
one more than there are facts.
-/

namespace Midend

namespace Machine

variable {ν φ : Type}

/-- The facts that nodes make true or that are seeded, as a set. -/
def factSet (machine : Machine ν φ) : Set φ :=
  {fact | (∃ (id : Nat) (node : Node ν), machine.graph.node? id = some node ∧
      fact ∈ machine.analysis.gen node) ∨
    ∃ (id : Nat) (facts : List φ), machine.seeds[id]? = some facts ∧ fact ∈ facts}

variable [BEq φ]

/-- A run ends after no more visits than one for the root and, for each edge, one more than there
are facts; allowing it more visits changes nothing. -/
def EndsInTime (machine : Machine ν φ) : Prop :=
  let bound := 1 + machine.graph.edgeCount * (machine.factSet.ncard + 1)
  ∃ final, machine.run = (final, .finished) ∧ final.visits ≤ bound ∧
    ∀ allowed, bound ≤ allowed → machine.runWithin allowed = (final, .finished)

variable [LawfulBEq φ]

/-- The facts of a machine are listed once each. -/
theorem ncard_factSet (machine : Machine ν φ) : machine.factSet.ncard = machine.facts.length := by
  classical
  have listed : machine.factSet = (machine.facts.toFinset : Set φ) := by
    ext fact
    rw [List.coe_toFinset, Set.mem_ofPred_eq, ← Facts.has_iff, has_facts_iff, factSet,
      Set.mem_ofPred_eq]
    simp only [Facts.has_iff]
  have nodup : machine.facts.Nodup :=
    (Facts.distinct_unions _).imp fun different same => by simp [same] at different
  rw [listed, Set.ncard_coe_finset, List.toFinset_card_of_nodup nodup]

/-- A gen-kill analysis that merges by union or by intersection ends in time. -/
theorem endsInTime_of_isBitVector {analysis : Analysis ν φ} {kills : Node ν → φ → Bool}
    (bitVector : analysis.IsBitVector kills) {graph : Graph ν} (built : graph.Built) {root : Nat}
    (isRoot : graph.root = some root) (inside : root < graph.size) (order : Order)
    (seeds : Std.TreeMap Nat (List φ)) : EndsInTime { analysis, graph, order, seeds } := by
  obtain ⟨_, _, _, prevails⟩ := bitVector.exists_prevails
  set machine : Machine ν φ := { analysis, graph, order, seeds }
  have bound : 1 + machine.graph.edgeCount * (machine.factSet.ncard + 1) = machine.limit := by
    rw [ncard_factSet, limit]
  have linked : machine.graph.Linked := built.linked
  obtain ⟨final, ran, counted, -⟩ := run_exact linked prevails isRoot inside rfl rfl
  have unvisited : machine.visits = 0 := rfl
  rw [EndsInTime, bound]
  exact ⟨final, ran, by omega, fun allowed atLeast => runWithin_of_finished ran atLeast⟩

end Machine

/-- The analyses of blocks end in time: reaching definitions on the graph of instructions, unless
there are none, and dominance on the graph of blocks, whatever is seeded and in either order. -/
theorem analyses_endInTime (blocks : List Block)
    (resolved : ∃ successors, successorTable blocks = .ok successors) (order : Order) :
    (∃ graph, instrGraph blocks = .ok graph ∧ (graph.root.isSome → ∀ rows seeds,
      Machine.EndsInTime { analysis := reachingAnalysis rows, graph, order, seeds })) ∧
    ∃ graph, blockGraph blocks = .ok graph ∧ (graph.root.isSome → ∀ seeds,
      Machine.EndsInTime { analysis := dominanceAnalysis, graph, order, seeds }) := by
  obtain ⟨successors, table⟩ := resolved
  constructor
  · obtain ⟨graph, made, -⟩ := exists_instrGraph table
    refine ⟨graph, made, fun rooted rows seeds => ?_⟩
    obtain ⟨root, isRoot⟩ := Option.isSome_iff_exists.1 rooted
    exact Machine.endsInTime_of_isBitVector (reachingAnalysis_isBitVector rows)
      (built_instrGraph made) isRoot (root_lt_of_instrGraph table made isRoot) order seeds
  · obtain ⟨graph, made, built, -, size, -, root⟩ := exists_blockGraph table
    refine ⟨graph, made, fun rooted seeds => ?_⟩
    by_cases filled : blocks.isEmpty = true
    · simp [root, filled] at rooted
    · rw [if_neg filled] at root
      have inside : 0 < graph.size := by
        rw [size, List.length_pos_iff]
        simpa using filled
      exact Machine.endsInTime_of_isBitVector dominanceAnalysis_isBitVector built root inside order
        seeds

/-- Both analyses of the loop to the start end in time. -/
theorem analyses_endInTime_loopToStart :
    (∃ graph, instrGraph loopToStart.blocks = .ok graph ∧ graph.root = some 0 ∧ ∀ rows seeds,
      Machine.EndsInTime { analysis := reachingAnalysis rows, graph, order := .fifo, seeds }) ∧
    ∃ graph, blockGraph loopToStart.blocks = .ok graph ∧ graph.root = some 0 ∧ ∀ seeds,
      Machine.EndsInTime { analysis := dominanceAnalysis, graph, order := .fifo, seeds } := by
  have laid := loopToStart_wellLabelled.laid
  obtain ⟨⟨instrs, madeInstrs, reaching⟩, graph, made, dominance⟩ :=
    analyses_endInTime loopToStart.blocks laid.exists_successorTable .fifo
  obtain ⟨successors, table⟩ := laid.exists_successorTable
  constructor
  · obtain ⟨other, madeToo, -, -, -, -, root⟩ := exists_instrGraph table
    obtain rfl : instrs = other := Except.ok.inj (madeInstrs.symm.trans madeToo)
    rw [laid.head?_firstNodes table, if_neg (by decide)] at root
    exact ⟨instrs, madeInstrs, root, reaching (by simp [root])⟩
  · obtain ⟨other, madeToo, -, -, -, -, root⟩ := exists_blockGraph table
    obtain rfl : graph = other := Except.ok.inj (made.symm.trans madeToo)
    rw [if_neg (by decide)] at root
    exact ⟨graph, made, root, dominance (by simp [root])⟩

end Midend
