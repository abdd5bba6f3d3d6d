import Midend.Proofs.Graph.Blocks
import Midend.Proofs.Graph.Contraction

/-!
# Graphs made by changes

A graph is made from nothing by adding nodes, adding edges and choosing roots. As long as every edge
is added between nodes that are there, every edge stays noted at both of its ends, and once at
either. The block graph and the instruction graph are made by such changes: the one from its nodes
and then its edges, the other from chains of instructions, block by block, and then the edges
between blocks.
-/

namespace Midend

open Lang

namespace Graph

variable {ν : Type}

/-- A change to a graph. -/
inductive Change (ν : Type)
  | addNode (label : String) (value : ν)
  | addEdge (source target : Nat)
  | setRoot (root : Nat)

/-- The graph after a change. -/
def change (graph : Graph ν) : Change ν → Graph ν
  | .addNode label value => graph.addNode label value
  | .addEdge source target => graph.connect source target
  | .setRoot root => graph.setRoot root

/-- The graph after changes, one after the other. -/
def changeAll (graph : Graph ν) (changes : List (Change ν)) : Graph ν :=
  changes.foldl change graph

/-- The nodes that a change puts an edge between. -/
def Change.ends : Change ν → List Nat
  | .addEdge source target => [source, target]
  | .addNode .. | .setRoot _ => []

/-- The nodes that a change names. -/
def Change.named : Change ν → List Nat
  | .addNode .. => []
  | .addEdge source target => [source, target]
  | .setRoot root => [root]

/-- Each change finds certain nodes in the graph that it is made to. -/
def Finds (wanted : Change ν → List Nat) : Graph ν → List (Change ν) → Prop
  | _, [] => True
  | graph, change :: changes =>
    (∀ id ∈ wanted change, id < graph.size) ∧ Finds wanted (graph.change change) changes

instance decidableFinds (wanted : Change ν → List Nat) :
    (graph : Graph ν) → (changes : List (Change ν)) → Decidable (graph.Finds wanted changes)
  | _, [] => isTrue trivial
  | graph, change :: changes =>
    haveI : Decidable ((graph.change change).Finds wanted changes) :=
      decidableFinds wanted (graph.change change) changes
    inferInstanceAs (Decidable (_ ∧ _))

/-- A linked graph that notes no node but its own before a node. -/
structure Mirrored (graph : Graph ν) : Prop extends graph.Linked where
  prev_lt : ∀ target, ∀ source ∈ graph.prevOf target, source < graph.size

/-- Nothing follows where there is no node, so that linked graphs are mirrored. -/
theorem Linked.mirrored {graph : Graph ν} (linked : graph.Linked) : graph.Mirrored := by
  refine ⟨linked, fun target source precedes => ?_⟩
  rw [linked.mem_prevOf] at precedes
  by_contra beyond
  have missing : graph.node? source = none := Array.getElem?_eq_none (Nat.le_of_not_lt beyond)
  simp [nextOf, missing] at precedes

/-- Changes that find the ends of their edges go on building a graph. -/
theorem Built.changeAll {graph : Graph ν} (built : graph.Built) {changes : List (Change ν)}
    (finds : graph.Finds Change.ends changes) : (graph.changeAll changes).Built := by
  induction changes generalizing graph with
  | nil => exact built
  | cons change changes ih =>
    obtain ⟨here, later⟩ := finds
    refine ih ?_ later
    cases change with
    | addNode label value => exact built.addNode label value
    | addEdge source target =>
      have inside : source < graph.size ∧ target < graph.size := by simpa [Change.ends] using here
      exact built.connect inside.1 inside.2
    | setRoot root => exact built.setRoot root

/-- Changes are made one part after the other. -/
theorem changeAll_append (graph : Graph ν) (first second : List (Change ν)) :
    graph.changeAll (first ++ second) = (graph.changeAll first).changeAll second :=
  List.foldl_append

/-- Changes find their nodes when one part does and the other does behind it. -/
theorem finds_append {wanted : Change ν → List Nat} {graph : Graph ν}
    {first second : List (Change ν)} (front : graph.Finds wanted first)
    (back : (graph.changeAll first).Finds wanted second) :
    graph.Finds wanted (first ++ second) := by
  induction first generalizing graph with
  | nil => exact back
  | cons change changes ih => exact ⟨front.1, ih front.2 back⟩

/-- Changes that find all nodes that they name find the ends of their edges. -/
theorem Finds.ends {graph : Graph ν} {changes : List (Change ν)}
    (finds : graph.Finds Change.named changes) : graph.Finds Change.ends changes := by
  induction changes generalizing graph with
  | nil => trivial
  | cons change changes ih =>
    refine ⟨fun id member => finds.1 id ?_, ih finds.2⟩
    cases change with
    | addNode => exact member
    | addEdge => exact member
    | setRoot => cases member

/-- New nodes find what they name, which is nothing. -/
theorem finds_addNodes (graph : Graph ν) (nodes : List (String × ν)) :
    graph.Finds Change.named (nodes.map fun node => .addNode node.1 node.2) := by
  induction nodes generalizing graph with
  | nil => trivial
  | cons node nodes ih => exact ⟨nofun, ih _⟩

/-- Edges between nodes of a graph find them one after the other. -/
theorem finds_addEdges {graph : Graph ν} {edges : List (Nat × Nat)}
    (inside : ∀ edge ∈ edges, edge.1 < graph.size ∧ edge.2 < graph.size) :
    graph.Finds Change.named (edges.map fun edge => .addEdge edge.1 edge.2) := by
  induction edges generalizing graph with
  | nil => trivial
  | cons edge edges ih =>
    obtain ⟨source, target⟩ := inside edge List.mem_cons_self
    refine ⟨by simp [Change.named, source, target], ih fun other member => ?_⟩
    rw [change, size_connect]
    exact inside other (List.mem_cons_of_mem _ member)

/-! ## Nodes first

Whatever the order in which nodes and edges were added, the graph is the one with all nodes added
first. -/

/-- The node that a change adds. -/
def Change.node? : Change ν → Option (String × ν)
  | .addNode label value => some (label, value)
  | .addEdge .. | .setRoot _ => none

/-- The edge that a change adds. -/
def Change.edge? : Change ν → Option (Nat × Nat)
  | .addEdge source target => some (source, target)
  | .addNode .. | .setRoot _ => none

/-- Graphs with the same nodes and the same root are the same. -/
theorem ext_node? {graph other : Graph ν} (nodes : ∀ id, graph.node? id = other.node? id)
    (root : graph.root = other.root) : graph = other := by
  obtain ⟨listed, first⟩ := graph
  obtain ⟨listedToo, firstToo⟩ := other
  obtain rfl : first = firstToo := root
  obtain rfl : listed = listedToo := Array.ext_getElem? nodes
  rfl

/-- A node may be added before an edge between others. -/
theorem addNode_connect (graph : Graph ν) {source target : Nat} (inside : source < graph.size)
    (present : target < graph.size) (label : String) (value : ν) :
    (graph.connect source target).addNode label value =
      (graph.addNode label value).connect source target := by
  by_cases known : target ∈ graph.nextOf source
  · rw [connect_of_not graph (.inr known), connect_of_not _ (.inr (by rwa [nextOf_addNode]))]
  · have wider : source < (graph.addNode label value).size := by
      rw [size_addNode]
      exact Nat.lt_succ_of_lt inside
    refine ext_node? (fun id => ?_) ?_
    · rw [node?_connect _ wider (by rwa [nextOf_addNode]), node?_addNode_eq, node?_addNode_eq,
        node?_connect graph inside known, size_connect]
      split
      next new =>
        -- Neither end of the edge is the new node.
        have notSource : id ≠ source := by omega
        have notTarget : id ≠ target := by omega
        simp [notSource, notTarget]
      next => rfl
    · rw [root_connect]
      exact root_connect graph source target

/-- Nodes may be added before an edge between others. -/
theorem addNodes_connect (graph : Graph ν) {source target : Nat} (inside : source < graph.size)
    (present : target < graph.size) (nodes : List (String × ν)) :
    nodes.foldl (fun graph node => graph.addNode node.1 node.2) (graph.connect source target) =
      (nodes.foldl (fun graph node => graph.addNode node.1 node.2) graph).connect
        source target := by
  induction nodes generalizing graph with
  | nil => rfl
  | cons node nodes ih =>
    rw [List.foldl_cons, addNode_connect graph inside present, ih, List.foldl_cons]
    · rw [size_addNode]
      exact Nat.lt_succ_of_lt inside
    · rw [size_addNode]
      exact Nat.lt_succ_of_lt present

/-- Changes that choose no root make the graph that has their nodes added first and then their
edges. -/
theorem changeAll_eq_foldl {graph : Graph ν} {changes : List (Change ν)}
    (finds : graph.Finds Change.ends changes) (rootless : ∀ root, .setRoot root ∉ changes) :
    graph.changeAll changes = (changes.filterMap Change.edge?).foldl
      (fun graph edge => graph.connect edge.1 edge.2)
      ((changes.filterMap Change.node?).foldl (fun graph node => graph.addNode node.1 node.2)
        graph) := by
  induction changes generalizing graph with
  | nil => rfl
  | cons change changes ih =>
    obtain ⟨here, later⟩ := finds
    have rest := ih later fun root member => rootless root (List.mem_cons_of_mem _ member)
    cases change with
    | addNode label value => exact rest
    | addEdge source target =>
      have inside : source < graph.size ∧ target < graph.size := by simpa [Change.ends] using here
      have swapped := addNodes_connect graph inside.1 inside.2 (changes.filterMap Change.node?)
      exact rest.trans (congrArg (List.foldl _ · _) swapped)
    | setRoot root => exact absurd List.mem_cons_self (rootless root)

/-- A graph grows by the nodes that are added to it. -/
theorem size_changeAll (graph : Graph ν) (changes : List (Change ν)) :
    (graph.changeAll changes).size =
      graph.size + (changes.filterMap Change.node?).length := by
  induction changes generalizing graph with
  | nil => rfl
  | cons change changes ih =>
    refine (ih (graph.change change)).trans ?_
    cases change with
    | addNode label value =>
      simp only [Graph.change, Change.node?, size_addNode, List.filterMap_cons, List.length_cons]
      omega
    | addEdge source target => rw [Graph.change, size_connect, List.filterMap_cons_none rfl]
    | setRoot root => rfl

/-- Changes that choose no root leave the root as it is. -/
theorem root_changeAll (graph : Graph ν) {changes : List (Change ν)}
    (rootless : ∀ root, .setRoot root ∉ changes) : (graph.changeAll changes).root = graph.root := by
  induction changes generalizing graph with
  | nil => rfl
  | cons change changes ih =>
    refine (ih (graph.change change) fun root member =>
      rootless root (List.mem_cons_of_mem _ member)).trans ?_
    cases change with
    | addNode label value => rfl
    | addEdge source target => exact root_connect graph source target
    | setRoot root => exact absurd List.mem_cons_self (rootless root)

/-- Changes that find their nodes and choose no root, then edges between the nodes added, and then
possibly one of the nodes as the root, make the graph of these nodes, edges and root. -/
theorem changeAll_eq_ofLists {changes : List (Change ν)}
    (finds : ({} : Graph ν).Finds Change.named changes) (rootless : ∀ root, .setRoot root ∉ changes)
    {nodes : List (String × ν)} (added : changes.filterMap Change.node? = nodes)
    {edges : List (Nat × Nat)}
    (inside : ∀ edge ∈ edges, edge.1 < nodes.length ∧ edge.2 < nodes.length)
    {root : Option Nat} (present : ∀ id ∈ root, id < nodes.length) :
    let whole := changes ++ edges.map (fun edge => .addEdge edge.1 edge.2)
      ++ root.toList.map .setRoot
    ({} : Graph ν).Finds Change.named whole ∧
      ({} : Graph ν).changeAll whole =
        ofLists nodes (changes.filterMap Change.edge? ++ edges) root := by
  set linking := changes ++ edges.map (fun edge => Change.addEdge edge.1 edge.2) with linking_def
  have onlyNodes : linking.filterMap Change.node? = nodes := by
    simp [linking_def, added, List.filterMap_map, Function.comp_def, Change.node?]
  have allEdges : linking.filterMap Change.edge? = changes.filterMap Change.edge? ++ edges := by
    simp [linking_def, List.filterMap_map, Function.comp_def, Change.edge?]
  have size (other : List (Change ν)) (same : other.filterMap Change.node? = nodes) :
      (({} : Graph ν).changeAll other).size = nodes.length := by
    rw [size_changeAll, same]
    exact Nat.zero_add _
  have found : ({} : Graph ν).Finds Change.named linking :=
    finds_append finds (finds_addEdges (by rwa [size changes added]))
  have noRoot : ∀ root, .setRoot root ∉ linking := by simpa [linking_def] using rootless
  have made := changeAll_eq_foldl found.ends noRoot
  have bare : (({} : Graph ν).changeAll linking).root = none := root_changeAll {} noRoot
  have same (graph : Graph ν) (bare : graph.root = none) : graph = { graph with root := none } := by
    rw [← bare]
  intro whole
  rw [changeAll_append, ofLists, ← allEdges, ← onlyNodes, ← made]
  cases root with
  | none => exact ⟨finds_append found trivial, same _ bare⟩
  | some root =>
    refine ⟨finds_append found ⟨fun id isRoot => ?_, trivial⟩, rfl⟩
    rw [List.mem_singleton.1 isRoot, size linking onlyNodes]
    exact present root rfl

end Graph

/-- The changes that make the block graph: a node for each block, the edges to the successors of the
blocks, and the first block as the root. -/
def blockChanges (blocks : List Block) (successors : List (List Nat)) :
    List (Graph.Change Block) :=
  blocks.map (fun block => .addNode block.label block)
    ++ (edgesOf successors).map (fun edge => .addEdge edge.1 edge.2)
    ++ (if blocks.isEmpty then none else some 0).toList.map .setRoot

/-- The block graph is made by its changes, which find the nodes that they name. -/
theorem blockGraph_eq_changeAll {blocks : List Block} {successors : List (List Nat)}
    (table : successorTable blocks = .ok successors) :
    ({} : Graph Block).Finds Graph.Change.named (blockChanges blocks successors) ∧
      blockGraph blocks =
        .ok (({} : Graph Block).changeAll (blockChanges blocks successors)) := by
  set nodes := blocks.map fun block => (block.label, block) with nodes_def
  have asChanges : nodes.map (fun node => Graph.Change.addNode node.1 node.2) =
      blocks.map fun block => .addNode block.label block := by
    rw [nodes_def, List.map_map]
    rfl
  have finds := Graph.finds_addNodes {} nodes
  have added : (nodes.map fun node => Graph.Change.addNode node.1 node.2).filterMap
      Graph.Change.node? = nodes := by
    simp [List.filterMap_map, Function.comp_def, Graph.Change.node?]
  have unlinked : (nodes.map fun node => Graph.Change.addNode node.1 node.2).filterMap
      Graph.Change.edge? = [] := by
    simp [List.filterMap_map, Function.comp_def, Graph.Change.edge?]
  have inside : ∀ edge ∈ edgesOf successors, edge.1 < nodes.length ∧ edge.2 < nodes.length := by
    rw [nodes_def, List.length_map]
    exact inside_edgesOf table
  have present : ∀ id ∈ (if blocks.isEmpty then none else some 0 : Option Nat),
      id < nodes.length := by
    cases blocks <;> simp [nodes_def]
  obtain ⟨found, made⟩ := Graph.changeAll_eq_ofLists finds (by simp) added inside present
  rw [asChanges] at found made unlinked
  refine ⟨found, ?_⟩
  rw [blockGraph, table, blockChanges, made, unlinked]
  rfl

/-- The changes that add instructions of a block, numbered from `id` on, each with an edge from the
one in front of it. -/
def chainChanges (label : String) (index : Nat) :
    (previous : Option Nat) → (id : Nat) → List Instruction → List (Graph.Change Site)
  | _, _, [] => []
  | previous, id, instr :: instrs =>
    .addNode label ⟨instr, index⟩ :: previous.toList.map (fun source => .addEdge source id)
      ++ chainChanges label index (some id) (id + 1) instrs

/-- The changes that add the instructions of blocks, numbered from `start` on. -/
def chainsChanges : (index start : Nat) → List Block → List (Graph.Change Site)
  | _, _, [] => []
  | index, start, block :: blocks =>
    chainChanges block.label index none start block.instrs
      ++ chainsChanges (index + 1) (start + block.instrs.length) blocks

/-- The changes that make the instruction graph: the chains of instructions, the edges between
blocks, and the instruction that control meets first as the root. -/
def instrChanges (blocks : List Block) (successors : List (List Nat)) : List (Graph.Change Site) :=
  chainsChanges 0 0 blocks
    ++ (crossEdges (spans blocks) successors).map (fun edge => .addEdge edge.1 edge.2)
    ++ (firstNodes (spans blocks) successors 0).head?.toList.map .setRoot

/-- The nodes of a chain are the instructions. -/
theorem nodes_chainChanges (label : String) (index : Nat) (previous : Option Nat) (id : Nat)
    (instrs : List Instruction) :
    (chainChanges label index previous id instrs).filterMap Graph.Change.node? =
      instrs.map fun instr => (label, ⟨instr, index⟩) := by
  induction instrs generalizing previous id with
  | nil => rfl
  | cons instr instrs ih =>
    cases previous <;> simp [chainChanges, List.filterMap_cons, Graph.Change.node?, ih]

/-- The edges of a chain behind an instruction lead from each instruction to the next. -/
theorem edges_chainChanges (label : String) (index id : Nat) (instrs : List Instruction) :
    (chainChanges label index (some id) (id + 1) instrs).filterMap Graph.Change.edge? =
      (List.range' id instrs.length).map fun node => (node, node + 1) := by
  induction instrs generalizing id with
  | nil => rfl
  | cons instr instrs ih =>
    simp [chainChanges, List.filterMap_cons, Graph.Change.edge?, ih, List.range'_succ]

/-- The nodes of chains are the instructions of the blocks. -/
theorem nodes_chainsChanges (index start : Nat) (blocks : List Block) :
    (chainsChanges index start blocks).filterMap Graph.Change.node? =
      (blocks.zipIdx index).flatMap fun (block, index) => block.instrs.map fun instr =>
        (block.label, ⟨instr, index⟩) := by
  induction blocks generalizing index start with
  | nil => rfl
  | cons block blocks ih =>
    simp [chainsChanges, nodes_chainChanges, ih]

/-- The edges of chains are those of the spans of the blocks. -/
theorem edges_chainsChanges (index start : Nat) (blocks : List Block) :
    (chainsChanges index start blocks).filterMap Graph.Change.edge? =
      (spansFrom start blocks).flatMap fun span => (span.map Span.chain).getD [] := by
  induction blocks generalizing index start with
  | nil => rfl
  | cons block blocks ih =>
    rw [chainsChanges, List.filterMap_append, ih, spansFrom, List.flatMap_cons]
    congr 1
    cases filled : block.instrs with
    | nil => simp [Block.isEmpty, filled, chainChanges]
    | cons instr instrs =>
      simp [Block.isEmpty, filled, chainChanges, Span.chain, List.filterMap_cons,
        Graph.Change.edge?, edges_chainChanges]

/-- The instructions of a chain find those in front of them. -/
theorem finds_chainChanges (label : String) (index : Nat) {graph : Graph Site}
    {previous : Option Nat} (known : ∀ id ∈ previous, id < graph.size)
    (instrs : List Instruction) :
    graph.Finds Graph.Change.named (chainChanges label index previous graph.size instrs) := by
  induction instrs generalizing graph previous with
  | nil => trivial
  | cons instr instrs ih =>
    set added := graph.addNode label ⟨instr, index⟩ with added_def
    have size : added.size = graph.size + 1 := Graph.size_addNode graph label ⟨instr, index⟩
    have newest : graph.size < added.size := by omega
    have onward (linked : Graph Site) (same : linked.size = added.size) :
        linked.Finds Graph.Change.named
          (chainChanges label index (some graph.size) (graph.size + 1) instrs) := by
      have rest : linked.Finds Graph.Change.named
          (chainChanges label index (some graph.size) linked.size instrs) :=
        ih (by simp [same, newest])
      rwa [same, size] at rest
    refine ⟨by simp [Graph.Change.named], ?_⟩
    cases previous with
    | none => exact onward added rfl
    | some source =>
      have older : source < added.size := Nat.lt_trans (known source rfl) newest
      refine ⟨by simp [Graph.Change.named, ← added_def, Graph.change, older, newest], ?_⟩
      exact onward _ (Graph.size_connect added source graph.size)

/-- The chains of blocks find the instructions that they name. -/
theorem finds_chainsChanges (index : Nat) (graph : Graph Site) (blocks : List Block) :
    graph.Finds Graph.Change.named (chainsChanges index graph.size blocks) := by
  induction blocks generalizing index graph with
  | nil => trivial
  | cons block blocks ih =>
    refine Graph.finds_append (finds_chainChanges block.label index (by simp) block.instrs) ?_
    have rest := ih (index + 1) (graph.changeAll
      (chainChanges block.label index none graph.size block.instrs))
    rwa [Graph.size_changeAll, nodes_chainChanges, List.length_map] at rest

/-- The chains of blocks choose no root. -/
theorem rootless_chainsChanges (index start : Nat) (blocks : List Block) (root : Nat) :
    .setRoot root ∉ chainsChanges index start blocks := by
  have rootless (label : String) (index id : Nat) (previous : Option Nat)
      (instrs : List Instruction) :
      .setRoot root ∉ chainChanges label index previous id instrs := by
    induction instrs generalizing previous id with
    | nil => simp [chainChanges]
    | cons instr instrs ih => simp [chainChanges, ih]
  induction blocks generalizing index start with
  | nil => simp [chainsChanges]
  | cons block blocks ih => simp [chainsChanges, rootless, ih]

/-- The instruction graph is made by its changes, which find the nodes that they name. -/
theorem instrGraph_eq_changeAll {blocks : List Block} {successors : List (List Nat)}
    (table : successorTable blocks = .ok successors) :
    ({} : Graph Site).Finds Graph.Change.named (instrChanges blocks successors) ∧
      instrGraph blocks = .ok (({} : Graph Site).changeAll (instrChanges blocks successors)) := by
  have finds : ({} : Graph Site).Finds Graph.Change.named (chainsChanges 0 0 blocks) :=
    finds_chainsChanges 0 {} blocks
  have inside := inside_instrEdges blocks successors
  have present : ∀ id ∈ (firstNodes (spans blocks) successors 0).head?,
      id < (blocks.zipIdx.flatMap fun (block, index) => block.instrs.map fun instr =>
        (block.label, Site.mk instr index)).length := by
    intro id first
    rw [← List.length_map (fun node : String × Site => node.2.instr), map_instr_sites]
    exact lt_of_mem_firstNodes (List.mem_of_head? first)
  obtain ⟨found, made⟩ := Graph.changeAll_eq_ofLists finds (rootless_chainsChanges 0 0 blocks)
    (nodes_chainsChanges 0 0 blocks)
    (fun edge member => inside edge (List.mem_append_right _ member)) present
  refine ⟨found, ?_⟩
  rw [instrGraph, table, instrChanges, made, edges_chainsChanges]
  rfl

/-- A block graph can be built step by step. -/
theorem built_blockGraph {blocks : List Block} {graph : Graph Block}
    (made : blockGraph blocks = .ok graph) : graph.Built := by
  obtain ⟨successors, table, -⟩ := bind_eq_ok_iff.1 made
  obtain ⟨other, madeToo, built, -⟩ := exists_blockGraph table
  obtain rfl : graph = other := Except.ok.inj (made.symm.trans madeToo)
  exact built

/-- A graph that is made from nothing by changes, in which each edge finds both of its ends, is
mirrored: its nodes have their positions as numbers, the lists of nodes before and behind a node do
not repeat and hold nodes of the graph alone, and one node is behind another when the other is
before the one. The block graph and the instruction graph are made by changes that find every node
that they name, whatever the blocks, and so are mirrored too. -/
theorem graphs_stayMirrored :
    (∀ (ν : Type) (changes : List (Graph.Change ν)),
      ({} : Graph ν).Finds Graph.Change.ends changes →
      (({} : Graph ν).changeAll changes).Mirrored) ∧
    (∀ blocks successors, successorTable blocks = .ok successors →
      ({} : Graph Block).Finds Graph.Change.named (blockChanges blocks successors) ∧
      ({} : Graph Site).Finds Graph.Change.named (instrChanges blocks successors) ∧
      blockGraph blocks =
        .ok (({} : Graph Block).changeAll (blockChanges blocks successors)) ∧
      instrGraph blocks =
        .ok (({} : Graph Site).changeAll (instrChanges blocks successors))) ∧
    (∀ blocks graph, blockGraph blocks = .ok graph → graph.Mirrored) ∧
    ∀ blocks graph, instrGraph blocks = .ok graph → graph.Mirrored := by
  refine ⟨fun ν changes finds => ?_, fun blocks successors table => ?_, fun blocks graph made => ?_,
    fun blocks graph made => ?_⟩
  · exact (Graph.Built.empty.changeAll finds).linked.mirrored
  · obtain ⟨blocksFound, blockwise⟩ := blockGraph_eq_changeAll table
    obtain ⟨instrsFound, instrwise⟩ := instrGraph_eq_changeAll table
    exact ⟨blocksFound, instrsFound, blockwise, instrwise⟩
  · exact (built_blockGraph made).linked.mirrored
  · exact (built_instrGraph made).linked.mirrored

/-- Changes that tie two nodes to each other and to themselves, more than once. -/
def knot : List (Graph.Change String) := [
  .addNode "left" "l", .addEdge 0 0, .setRoot 1, .addNode "right" "r", .addEdge 1 0,
  .addEdge 0 1, .addEdge 1 0, .addEdge 0 0, .addEdge 1 1]

/-- The edges of a knot find their ends, and so do those of blocks that lead to each other through
empty ones. -/
theorem graphs_stayMirrored_knot :
    ({} : Graph String).Finds Graph.Change.ends knot ∧
      (({} : Graph String).changeAll knot).Mirrored ∧
      ∃ successors, successorTable emptyLoops = .ok successors ∧
        ({} : Graph Block).Finds Graph.Change.named (blockChanges emptyLoops successors) ∧
        ({} : Graph Site).Finds Graph.Change.named (instrChanges emptyLoops successors) ∧
        (∃ graph, blockGraph emptyLoops = .ok graph ∧ graph.Mirrored) ∧
        ∃ graph, instrGraph emptyLoops = .ok graph ∧ graph.Mirrored := by
  obtain ⟨changed, made, blockwise, instrwise⟩ := graphs_stayMirrored
  have finds : ({} : Graph String).Finds Graph.Change.ends knot := by decide
  have table : successorTable emptyLoops = .ok [[1, 2], [2, 3], [1, 4], [0, 3], [5], [5]] := rfl
  obtain ⟨blocksFound, instrsFound, blocks, instrs⟩ := made emptyLoops _ table
  exact ⟨finds, changed String knot finds, _, table, blocksFound, instrsFound,
    ⟨_, blocks, blockwise emptyLoops _ blocks⟩, _, instrs, instrwise emptyLoops _ instrs⟩

example : (({} : Graph String).changeAll knot).nodes.toList.map
    (fun node => (node.prev, node.next)) = [([0, 1], [0, 1]), ([0, 1], [0, 1])] := by
  decide

end Midend
