import Midend.Proofs.Dataflow.Dominance
import Midend.Proofs.Dataflow.Reaching

/-!
# The order of visits

In a gen-kill analysis the order in which waiting nodes are taken does not matter: runs in different
orders visit the same nodes and find the same facts at each. What they find is where the answer that
prevails spreads, and this depends on the graph, the analysis and the seeds alone.
-/

namespace Midend.Machine

variable {ν φ : Type} [BEq φ]

/-- Two records of the same nodes, with the same facts at each. -/
def SameRecords (first second : Std.TreeMap Nat (List φ)) : Prop :=
  ∀ id : Nat,
    Option.Rel (fun (left right : List φ) => ∀ fact, Facts.has left fact = Facts.has right fact)
      first[id]? second[id]?

/-- The order of visits does not matter to an analysis of a graph: runs in both orders end, and with
the same records. -/
def OrderIrrelevant (analysis : Analysis ν φ) (graph : Graph ν) (seeds : Std.TreeMap Nat (List φ)) :
    Prop :=
  ∃ fifo dedup, run { analysis, graph, order := .fifo, seeds } = (fifo, .finished) ∧
    run { analysis, graph, order := .dedup, seeds } = (dedup, .finished) ∧
    SameRecords fifo.inputs dedup.inputs ∧ SameRecords fifo.outputs dedup.outputs

/-- Two records are the same when they have the same nodes and agree where both have facts. -/
theorem sameRecords_of {first second : Std.TreeMap Nat (List φ)} {recorded : Nat → Prop}
    (left : ∀ id, (∃ facts : List φ, first[id]? = some facts) ↔ recorded id)
    (right : ∀ id, (∃ facts : List φ, second[id]? = some facts) ↔ recorded id)
    (agree : ∀ (id : Nat) (facts others : List φ), first[id]? = some facts →
      second[id]? = some others → ∀ fact, Facts.has facts fact = Facts.has others fact) :
    SameRecords first second := by
  intro id
  have both := (left id).trans (right id).symm
  cases here : first[id]? with
  | none =>
    cases there : second[id]? with
    | none => exact .none
    | some others => simp [here, there] at both
  | some facts =>
    cases there : second[id]? with
    | none => simp [here, there] at both
    | some others => exact .some (agree id facts others here there)

variable [EquivBEq φ] {answer : Bool} {causes reverses : Node ν → φ → Bool}

/-- Fixed points of one analysis on one graph have the same records when the answer that prevails
flows into nodes of either alike. -/
theorem FixedPoint.sameRecords {first second : Machine ν φ} (rests : FixedPoint first)
    (restsToo : FixedPoint second) (graphs : second.graph = first.graph)
    (analyses : second.analysis = first.analysis)
    (prevails : first.analysis.Prevails answer causes reverses)
    (alike : ∀ (id : Nat) (input others : List φ), first.inputs[id]? = some input →
      second.inputs[id]? = some others → ∀ fact,
      Facts.has input fact = answer ↔ Facts.has others fact = answer) :
    SameRecords first.inputs second.inputs ∧ SameRecords first.outputs second.outputs := by
  have same {left right : Bool} (agree : left = answer ↔ right = answer) : left = right := by
    cases left <;> cases right <;> cases answer <;> simp_all
  constructor
  · refine sameRecords_of rests.inputs_iff (fun id => ?_) ?_
    · rw [restsToo.inputs_iff, graphs]
    intro id input others isInput isOther fact
    exact same (alike id input others isInput isOther fact)
  · refine sameRecords_of rests.outputs_iff (fun id => ?_) ?_
    · rw [restsToo.outputs_iff, graphs]
    intro id output others isOutput isOther fact
    have reachable := (rests.outputs_iff id).1 ⟨output, isOutput⟩
    obtain ⟨node, found⟩ := rests.present id reachable
    obtain ⟨input, isInput⟩ := (rests.inputs_iff id).2 reachable
    obtain ⟨inputToo, isInputToo⟩ := (restsToo.inputs_iff id).2 (by rwa [graphs])
    have here := rests.has_output_iff prevails found isInput isOutput fact
    have there := restsToo.has_output_iff (by rwa [analyses]) (by rwa [graphs]) isInputToo isOther
      fact
    rw [← alike id input inputToo isInput isInputToo fact] at there
    exact same (here.trans there.symm)

/-- The order of visits does not matter where one answer prevails. -/
theorem orderIrrelevant_of_prevails {analysis : Analysis ν φ}
    (prevails : analysis.Prevails answer causes reverses) {graph : Graph ν} (linked : graph.Linked)
    {root : Nat} (isRoot : graph.root = some root) (inside : root < graph.size)
    (seeds : Std.TreeMap Nat (List φ)) : OrderIrrelevant analysis graph seeds := by
  have ended (order : Order) := @run_exact ν φ _ _ answer causes reverses
    { analysis, graph, order, seeds } linked prevails root isRoot inside rfl rfl
  obtain ⟨fifo, ran, -, underway, exact⟩ := ended .fifo
  obtain ⟨dedup, ranToo, -, underwayToo, exactToo⟩ := ended .dedup
  have graphs : dedup.graph = fifo.graph := underwayToo.graph_eq.trans underway.graph_eq.symm
  have analyses : dedup.analysis = fifo.analysis :=
    underwayToo.analysis_eq.trans underway.analysis_eq.symm
  have given : fifo.analysis.Prevails answer causes reverses := by rwa [underway.analysis_eq]
  refine ⟨fifo, dedup, ran, ranToo, (underway.fixedPoint linked).sameRecords
    (underwayToo.fixedPoint linked) graphs analyses given ?_⟩
  intro id input others isInput isOther fact
  -- Where the answer spreads is said without the order.
  refine (exact id input isInput fact).trans (Iff.trans ?_ (exactToo id others isOther fact).symm)
  exact ⟨.congr rfl rfl, .congr rfl rfl⟩

end Midend.Machine

namespace Midend

open Machine

/-- The order of visits does not matter to gen-kill analyses that merge by union or by intersection,
of which reaching definitions and dominance are two. -/
theorem bitVector_orderIrrelevant :
    (∀ (ν φ : Type) [BEq φ] [EquivBEq φ] (analysis : Analysis ν φ) (kills : Node ν → φ → Bool),
      analysis.IsBitVector kills → ∀ graph : Graph ν, graph.Built → ∀ root,
      graph.root = some root → root < graph.size → ∀ seeds,
      OrderIrrelevant analysis graph seeds) ∧
    (∀ rows, (reachingAnalysis rows).IsBitVector (replaces rows)) ∧
    dominanceAnalysis.IsBitVector fun _ _ => false := by
  refine ⟨?_, reachingAnalysis_isBitVector, dominanceAnalysis_isBitVector⟩
  intro ν φ _ _ analysis kills bitVector graph built root isRoot inside seeds
  obtain ⟨_, _, _, prevails⟩ := bitVector.exists_prevails
  exact orderIrrelevant_of_prevails prevails built.linked isRoot inside seeds

/-- The order of visits does not matter to the reaching definitions of the loop to the start. -/
theorem bitVector_orderIrrelevant_loopToStart :
    ∃ graph, instrGraph loopToStart.blocks = .ok graph ∧ graph.root = some 0 ∧
      ∀ rows seeds, OrderIrrelevant (reachingAnalysis rows) graph seeds := by
  obtain ⟨irrelevant, reaching, -⟩ := bitVector_orderIrrelevant
  have laid := loopToStart_wellLabelled.laid
  obtain ⟨successors, table⟩ := laid.exists_successorTable
  obtain ⟨graph, made, -, -, -, -, root⟩ := exists_instrGraph table
  rw [laid.head?_firstNodes table, if_neg (by decide)] at root
  refine ⟨graph, made, root, fun rows seeds => ?_⟩
  exact irrelevant _ _ _ _ (reaching rows) graph (built_instrGraph made) 0 root
    (root_lt_of_instrGraph table made root) seeds

/-- A letter in either case. -/
inductive Letter
  | small
  | capital
deriving DecidableEq

/-- Letters that differ in their case alone are the same. -/
instance : BEq Letter where
  beq _ _ := true

instance : EquivBEq Letter where
  rfl := rfl
  symm _ := rfl
  trans _ _ := rfl

/-- An analysis that makes the letter in one case at one node and in the other at another, and
removes it at a third if it is small. -/
def caseAnalysis : Analysis Unit Letter where
  gen node := if node.id = 1 then [.capital] else if node.id = 3 then [.small] else []
  kill node input _ := input.filter fun letter => node.id = 4 ∧ letter = .small
  merge := Facts.unions

/-- Four nodes on several cycles, and one behind them. -/
def caseGraph : Graph Unit :=
  .ofLists [("a", ()), ("b", ()), ("c", ()), ("d", ()), ("e", ())]
    [(0, 2), (2, 0), (1, 0), (1, 3), (3, 2), (0, 3), (0, 0), (0, 1), (0, 4)] (some 0)

/-- It is not enough that nodes make nothing that they remove. Where they may tell facts apart that
are the same, the order of visits decides which of these a list holds and what is removed. -/
theorem orderRelevant_caseAnalysis :
    ¬∀ (ν φ : Type) [BEq φ] [EquivBEq φ] (analysis : Analysis ν φ) (kills : Node ν → φ → Bool),
      (∀ node input gen, analysis.kill node input gen = input.filter (kills node)) →
      (∀ node, ∀ fact ∈ analysis.gen node, kills node fact = false) →
      (analysis.merge = Facts.unions ∨ analysis.merge = Facts.intersection) →
      ∀ graph : Graph ν, graph.Built → ∀ root, graph.root = some root → root < graph.size →
        ∀ seeds, OrderIrrelevant analysis graph seeds := by
  intro irrelevant
  have apart (node : Node Unit) : ∀ letter ∈ caseAnalysis.gen node,
      decide (node.id = 4 ∧ letter = .small) = false := by
    simp only [caseAnalysis, decide_eq_false_iff_not, not_and]
    intro letter member last
    simp [last] at member
  obtain ⟨fifo, dedup, ran, ranToo, -, outputs⟩ := irrelevant Unit Letter caseAnalysis
    (fun node letter => node.id = 4 ∧ letter = .small) (fun _ _ _ => rfl) apart (.inl rfl)
    caseGraph (Graph.built_ofLists _ _ _ (by decide)) 0 rfl (by decide) ∅
  have capital :
      (run { analysis := caseAnalysis, graph := caseGraph, order := .fifo }).1.outputs[4]? =
        some [.capital] := by
    decide +kernel
  have nothing :
      (run { analysis := caseAnalysis, graph := caseGraph, order := .dedup }).1.outputs[4]? =
        some [] := by
    decide +kernel
  have same := outputs 4
  rw [ran] at capital
  rw [ranToo] at nothing
  rw [capital, nothing] at same
  obtain ⟨agree⟩ := same
  exact absurd (agree .capital) (by decide)

end Midend
