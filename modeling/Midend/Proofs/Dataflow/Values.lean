import Midend.Dataflow.Dominance
import Midend.Proofs.Block.Successors
import Midend.Proofs.Dataflow.Engine
import Midend.Proofs.Traversal

/-!
# What an analysis does not look at

The values at the nodes of a graph can be changed without changing the graph. An analysis that gives
the same facts for the changed values runs as before, visit by visit. Dominance looks at nothing of
a block but its name, so blocks of the same names and successors have the same dominators.
-/

namespace Midend

variable {ν μ φ : Type} {change : ν → μ}

/-- The node with another value. -/
def Node.map (change : ν → μ) (node : Node ν) : Node μ :=
  { node with value := change node.value }

namespace Graph

/-- The graph with other values at its nodes. -/
def map (change : ν → μ) (graph : Graph ν) : Graph μ :=
  { nodes := graph.nodes.map (Node.map change), root := graph.root }

/-- Every node has its value changed. -/
theorem node?_map (graph : Graph ν) (id : Nat) :
    (graph.map change).node? id = (graph.node? id).map (Node.map change) :=
  Array.getElem?_map

/-- The edges are the same. -/
theorem hasEdge_map (graph : Graph ν) (source target : Nat) :
    (graph.map change).hasEdge source target = graph.hasEdge source target := by
  rw [hasEdge, hasEdge, node?_map, Option.any_map]
  rfl

/-- A node that is added is one with its value changed. -/
theorem map_addNode (graph : Graph ν) (label : String) (value : ν) :
    (graph.addNode label value).map change = (graph.map change).addNode label (change value) := by
  simp [map, addNode, size, Node.map]

/-- An edge is added as before. -/
theorem map_connect (graph : Graph ν) (source target : Nat) :
    (graph.connect source target).map change = (graph.map change).connect source target := by
  have modified (nodes : Array (Node ν)) (id : Nat) (link : Node ν → Node ν)
      (linkChanged : Node μ → Node μ)
      (same : ∀ node, (link node).map change = linkChanged (node.map change)) :
      (nodes.modify id link).map (Node.map change) =
        (nodes.map (Node.map change)).modify id linkChanged := by
    refine Array.ext_getElem? fun place => ?_
    rw [Array.getElem?_map, Array.getElem?_modify, Array.getElem?_modify, Array.getElem?_map]
    split
    · rw [Option.map_map, Option.map_map]
      exact congrArg (Option.map · _) (funext same)
    · rfl
  rw [connect, connect, node?_map, hasEdge_map, Option.isNone_map]
  split
  · rfl
  · simp only [map]
    rw [modified _ target _ (fun node => { node with prev := node.prev ++ [source] }) fun _ => rfl,
      modified _ source _ (fun node => { node with next := node.next ++ [target] }) fun _ => rfl]

/-- A graph is made from nodes with changed values as before. -/
theorem map_ofLists (nodes : List (String × ν)) (edges : List (Nat × Nat)) (root : Option Nat) :
    (ofLists nodes edges root).map change =
      ofLists (nodes.map fun node => (node.1, change node.2)) edges root := by
  have added : ∀ graph : Graph ν,
      (nodes.foldl (fun graph node => graph.addNode node.1 node.2) graph).map change =
        (nodes.map fun node => (node.1, change node.2)).foldl
          (fun graph node => graph.addNode node.1 node.2) (graph.map change) := by
    intro graph
    rw [List.foldl_map]
    exact (List.foldl_hom (map change) fun graph node => (map_addNode graph ..).symm).symm
  have linked : ∀ graph : Graph ν,
      (edges.foldl (fun graph edge => graph.connect edge.1 edge.2) graph).map change =
        edges.foldl (fun graph edge => graph.connect edge.1 edge.2) (graph.map change) :=
    fun graph => (List.foldl_hom (map change) fun graph edge => (map_connect graph ..).symm).symm
  have unrooted := linked (nodes.foldl (fun graph node => graph.addNode node.1 node.2) {})
  have blank : ({} : Graph ν).map change = {} := by simp [map]
  rw [added, blank] at unrooted
  exact congrArg (fun graph : Graph μ => { graph with root }) unrooted

/-- There are as many edges. -/
theorem edgeCount_map (graph : Graph ν) : (graph.map change).edgeCount = graph.edgeCount := by
  simp [edgeCount, map, List.flatMap_map, Node.map]

end Graph

/-- An analysis that gives for changed values what another gives for the values. -/
structure Analysis.LooksPast (change : ν → μ) (first : Analysis ν φ) (second : Analysis μ φ) :
    Prop where
  gen_eq : ∀ node, second.gen (node.map change) = first.gen node
  kill_eq : ∀ node, second.kill (node.map change) = first.kill node
  merge_eq : second.merge = first.merge

namespace Machine

/-- The machine over other values. -/
def map (change : ν → μ) (analysis : Analysis μ φ) (machine : Machine ν φ) : Machine μ φ :=
  { machine with analysis, graph := machine.graph.map change }

variable {machine : Machine ν φ} {analysis : Analysis μ φ}

/-- The same flows into a node. -/
theorem input_map (past : machine.analysis.LooksPast change analysis) (node : Node ν) :
    (machine.map change analysis).input (node.map change) = machine.input node := by
  have flowing : (machine.map change analysis).incoming (node.map change) =
      machine.incoming node := rfl
  have merging : (machine.map change analysis).analysis.merge = machine.analysis.merge :=
    past.merge_eq
  rw [input, input, flowing, merging]

/-- The same predecessor is missing. -/
theorem missingPred?_map (machine : Machine ν φ) (node : Node ν) :
    (machine.map change analysis).missingPred? (node.map change) = machine.missingPred? node := by
  have absent (id : Nat) : ((machine.map change analysis).graph.node? id).isNone =
      (machine.graph.node? id).isNone := by
    rw [map, machine.graph.node?_map, Option.isNone_map]
  rw [missingPred?, missingPred?]
  exact congrArg (List.find? · node.prev) (funext absent)

variable [BEq φ]

/-- The same flows out of a node. -/
theorem outcome_map (past : machine.analysis.LooksPast change analysis) (node : Node ν) :
    (machine.map change analysis).outcome (node.map change) = machine.outcome node := by
  rw [outcome, outcome, transfer, transfer, input_map past]
  simp only [map, past.gen_eq, past.kill_eq]

/-- The same visits change an outcome. -/
theorem changes_map (past : machine.analysis.LooksPast change analysis) (node : Node ν) :
    (machine.map change analysis).changes (node.map change) = machine.changes node := by
  rw [changes, changes, outcome_map past]
  rfl

/-- A visit leaves the same facts. -/
theorem afterVisit_map (past : machine.analysis.LooksPast change analysis) (node : Node ν) :
    (machine.map change analysis).afterVisit (node.map change) =
      (machine.afterVisit node).map change analysis := by
  rw [afterVisit, afterVisit, changes_map past, outcome_map past, input_map past]
  rfl

/-- The machine visits the same nodes, and ends as it did. -/
theorem drain_map (past : machine.analysis.LooksPast change analysis) (allowed : Nat)
    (worklist : Worklist) :
    drain allowed worklist (machine.map change analysis) =
      ((drain allowed worklist machine).1.map change analysis,
        (drain allowed worklist machine).2) := by
  have found {machine : Machine ν φ} {id : Nat} : (machine.map change analysis).graph.node? id =
      (machine.graph.node? id).map (Node.map change) := machine.graph.node?_map id
  induction allowed, worklist, machine using drain_induction with
  | finished allowed worklist machine waits =>
    rw [drain_finished _ _ _ waits, drain_finished _ _ _ waits]
  | failed allowed worklist machine id others waits missing =>
    rw [drain_failed _ _ _ id others waits (by rw [found, missing]; rfl),
      drain_failed _ _ _ id others waits missing]
  | exhausted worklist machine id others node waits here =>
    rw [drain_exhausted _ _ id others waits _ (by rw [found, here]; rfl),
      drain_exhausted _ _ id others waits node here]
  | orphaned allowed worklist machine id others node pred waits here missing =>
    rw [drain_orphaned allowed _ _ id others waits (node.map change) (by rw [found, here]; rfl)
        pred (by rw [missingPred?_map, missing]),
      drain_orphaned allowed _ _ id others waits node here pred missing]
    rfl
  | visit allowed worklist machine id others node waits here complete ih =>
    rw [drain_visit allowed _ _ id others waits (node.map change) (by rw [found, here]; rfl)
        (by rw [missingPred?_map, complete]),
      drain_visit allowed _ _ id others waits node here complete, afterVisit_map past,
      worklistAfter, changes_map past]
    exact ih past

/-- The facts are the same. -/
theorem limit_map (past : machine.analysis.LooksPast change analysis) :
    (machine.map change analysis).limit = machine.limit := by
  have facts : (machine.map change analysis).facts = machine.facts := by
    rw [Machine.facts, Machine.facts]
    simp only [map, Graph.map, Array.toList_map, List.map_map]
    congr 3
    exact funext past.gen_eq
  have edges : (machine.map change analysis).graph.edgeCount = machine.graph.edgeCount :=
    machine.graph.edgeCount_map
  rw [limit, limit, facts, edges]

/-- The machine settles as it did. -/
theorem settle_map (past : machine.analysis.LooksPast change analysis) :
    (machine.map change analysis).settle = machine.settle.map (map change analysis) := by
  have ran : (machine.map change analysis).run =
      (machine.run.1.map change analysis, machine.run.2) := by
    have roots : (machine.map change analysis).graph.root = machine.graph.root := rfl
    rw [run, run, limit_map past, runWithin, runWithin, roots]
    cases machine.graph.root with
    | none => rfl
    | some root => exact drain_map past ..
  rw [settle, settle, ran]
  obtain ⟨final, outcome⟩ := machine.run
  cases outcome <;> rfl

end Machine

section Blocks

variable {change : Block → Block} (label_eq : ∀ block, (change block).label = block.label)
  (next_eq : ∀ block, (change block).next = block.next)

include label_eq

/-- Dominance looks at nothing of a block but its name. -/
theorem dominanceAnalysis_looksPast : dominanceAnalysis.LooksPast change dominanceAnalysis :=
  ⟨fun node => congrArg (fun label => [label]) (label_eq node.value), fun _ => rfl, rfl⟩

include next_eq

/-- The graph of blocks depends on their names and on those that they give. -/
theorem blockGraph_map (blocks : List Block) :
    blockGraph (blocks.map change) = (blockGraph blocks).map (Graph.map change) := by
  have table : successorTable (blocks.map change) = successorTable blocks := by
    refine successorTable_congr ?_
    rw [List.map_map]
    exact List.map_congr_left fun block _ => by simp [label_eq, next_eq]
  rw [blockGraph, blockGraph, table]
  cases successorTable blocks with
  | error => rfl
  | ok successors =>
    simp [bind, Except.bind, pure, Except.pure, Except.map, Graph.map_ofLists,
      Function.comp_def, label_eq]

variable (change)

/-- Dominators depend on the names of blocks and on those that they give. -/
theorem dominators_map (blocks : List Block) (kind : Dominance) (options : Options) :
    dominators (blocks.map change) kind options = dominators blocks kind options := by
  have labels : (blocks.map change).map Block.label = blocks.map Block.label := by
    simp [label_eq, Function.comp_def]
  have settles (graph : Graph Block) (order : Order) :
      Machine.settle { analysis := dominanceAnalysis, graph := graph.map change, order } =
        (Machine.settle { analysis := dominanceAnalysis, graph, order }).map
          (Machine.map change dominanceAnalysis) := by
    let machine : Machine Block String := { analysis := dominanceAnalysis, graph, order }
    have past : machine.analysis.LooksPast change dominanceAnalysis :=
      dominanceAnalysis_looksPast label_eq
    exact Machine.settle_map past
  unfold dominators dominanceMachine
  rw [blockGraph_map label_eq next_eq, List.isEmpty_map, labels]
  split
  · rfl
  cases blockGraph blocks with
  | error => rfl
  | ok graph =>
    simp only [bind, Except.bind, pure, Except.pure, Except.map, settles]
    generalize Machine.settle { analysis := dominanceAnalysis, graph, order := options.order } =
      ended
    cases ended with
    | error => rfl
    | ok final =>
      simp only [List.zipIdx_map, List.foldl_map, Prod.map, label_eq]
      rfl

end Blocks

end Midend
