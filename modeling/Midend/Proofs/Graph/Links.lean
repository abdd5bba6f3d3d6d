import Midend.Graph.Basic
import Mathlib.Data.List.Nodup

/-!
# Links of graphs

A graph keeps every edge at both of its ends. A graph that was built from nodes and from edges
between them has exactly those edges, each once at either end, and its nodes are numbered by their
positions.
-/

namespace Midend.Graph

variable {ν : Type}

/-- The nodes that edges lead to from a node. -/
def nextOf (graph : Graph ν) (id : Nat) : List Nat :=
  ((graph.node? id).map Node.next).getD []

/-- The nodes that edges lead from to a node. -/
def prevOf (graph : Graph ν) (id : Nat) : List Nat :=
  ((graph.node? id).map Node.prev).getD []

/-- A graph that keeps edges between its own nodes, each once at either end, and numbers its nodes
by their positions. -/
structure Linked (graph : Graph ν) : Prop where
  id_eq : ∀ id node, graph.node? id = some node → node.id = id
  next_lt : ∀ source, ∀ target ∈ graph.nextOf source, target < graph.size
  next_nodup : ∀ source, (graph.nextOf source).Nodup
  prev_nodup : ∀ target, (graph.prevOf target).Nodup
  mem_prevOf : ∀ source target, source ∈ graph.prevOf target ↔ target ∈ graph.nextOf source

/-- What follows a node is noted at the node. -/
theorem nextOf_eq {graph : Graph ν} {id : Nat} {node : Node ν}
    (found : graph.node? id = some node) : graph.nextOf id = node.next := by
  rw [nextOf, found]
  rfl

/-- What a linked node notes as before it is what the node follows. -/
theorem Linked.mem_prev_iff {graph : Graph ν} (linked : graph.Linked) {id : Nat} {node : Node ν}
    (found : graph.node? id = some node) (source : Nat) :
    source ∈ node.prev ↔ id ∈ graph.nextOf source := by
  rw [← linked.mem_prevOf, prevOf, found]
  rfl

/-- There is an edge to a node exactly when the node is among those that follow. -/
theorem hasEdge_iff (graph : Graph ν) (source target : Nat) :
    graph.hasEdge source target = true ↔ target ∈ graph.nextOf source := by
  unfold hasEdge nextOf
  cases graph.node? source <;> simp

/-- Every number below the size is that of a node. -/
theorem exists_node? (graph : Graph ν) {id : Nat} (inside : id < graph.size) :
    ∃ node, graph.node? id = some node :=
  ⟨_, Array.getElem?_eq_getElem inside⟩

/-- An edge that is there already, or has no source, is not added. -/
theorem connect_of_not (graph : Graph ν) {source target : Nat}
    (idle : graph.size ≤ source ∨ target ∈ graph.nextOf source) :
    graph.connect source target = graph := by
  unfold connect
  rw [if_pos]
  rcases idle with beyond | known
  · have missing : graph.node? source = none := Array.getElem?_eq_none beyond
    rw [missing]
    rfl
  · rw [(graph.hasEdge_iff source target).2 known, Bool.or_true]

/-- A new edge is put down at the end of the lists at both of its ends. -/
theorem node?_connect (graph : Graph ν) {source target : Nat} (inside : source < graph.size)
    (new : target ∉ graph.nextOf source) (id : Nat) :
    (graph.connect source target).node? id = (graph.node? id).map fun node =>
      { node with
        next := if id = source then node.next ++ [target] else node.next
        prev := if id = target then node.prev ++ [source] else node.prev } := by
  have free : ¬((graph.node? source).isNone || graph.hasEdge source target) = true := by
    obtain ⟨node, present⟩ := graph.exists_node? inside
    have absent : graph.hasEdge source target = false := by
      rw [← Bool.not_eq_true, hasEdge_iff]
      exact new
    simp [present, absent]
  unfold connect
  rw [if_neg free]
  simp only [node?, Array.getElem?_modify]
  by_cases isTarget : id = target
  · by_cases isSource : id = source
    · subst isTarget isSource
      cases graph.nodes[id]? <;> simp
    · subst isTarget
      rw [if_neg (Ne.symm isSource)]
      cases graph.nodes[id]? <;> simp [isSource]
  · by_cases isSource : id = source
    · subst isSource
      rw [if_neg (Ne.symm isTarget)]
      cases graph.nodes[id]? <;> simp [isTarget]
    · rw [if_neg (Ne.symm isTarget), if_neg (Ne.symm isSource)]
      cases graph.nodes[id]? <;> simp [isTarget, isSource]

/-- What follows a node after an edge has been added. -/
theorem nextOf_connect (graph : Graph ν) {source target : Nat} (inside : source < graph.size)
    (new : target ∉ graph.nextOf source) (id : Nat) :
    (graph.connect source target).nextOf id =
      if id = source then graph.nextOf id ++ [target] else graph.nextOf id := by
  rw [nextOf, node?_connect graph inside new]
  by_cases isSource : id = source
  · subst isSource
    obtain ⟨node, present⟩ := graph.exists_node? inside
    simp [nextOf, present]
  · cases found : graph.node? id <;> simp [nextOf, found, isSource]

/-- What precedes a node after an edge has been added. -/
theorem prevOf_connect (graph : Graph ν) {source target : Nat} (inside : source < graph.size)
    (present : target < graph.size) (new : target ∉ graph.nextOf source) (id : Nat) :
    (graph.connect source target).prevOf id =
      if id = target then graph.prevOf id ++ [source] else graph.prevOf id := by
  rw [prevOf, node?_connect graph inside new]
  by_cases isTarget : id = target
  · subst isTarget
    obtain ⟨node, found⟩ := graph.exists_node? present
    simp [prevOf, found]
  · cases found : graph.node? id <;> simp [prevOf, found, isTarget]

/-- Adding an edge adds that edge and no other. -/
theorem mem_nextOf_connect (graph : Graph ν) {source target : Nat} (inside : source < graph.size)
    (origin other : Nat) :
    other ∈ (graph.connect source target).nextOf origin ↔
      other ∈ graph.nextOf origin ∨ origin = source ∧ other = target := by
  by_cases known : target ∈ graph.nextOf source
  · rw [connect_of_not graph (.inr known)]
    constructor
    · exact .inl
    · rintro (old | ⟨rfl, rfl⟩)
      · exact old
      · exact known
  · rw [nextOf_connect graph inside known]
    by_cases isSource : origin = source <;> simp [isSource]

/-- Adding an edge between nodes keeps a graph linked. -/
theorem Linked.connect {graph : Graph ν} (linked : graph.Linked) {source target : Nat}
    (inside : source < graph.size) (present : target < graph.size) :
    (graph.connect source target).Linked := by
  by_cases known : target ∈ graph.nextOf source
  · rw [connect_of_not graph (.inr known)]
    exact linked
  · have next := nextOf_connect graph inside known
    have prev := prevOf_connect graph inside present known
    have apart : source ∉ graph.prevOf target := by
      rwa [linked.mem_prevOf]
    constructor
    · intro id node found
      rw [node?_connect graph inside known, Option.map_eq_some_iff] at found
      obtain ⟨old, was, rfl⟩ := found
      exact linked.id_eq id old was
    · intro origin other member
      rw [size_connect]
      rcases (mem_nextOf_connect graph inside origin other).1 member with old | ⟨-, rfl⟩
      · exact linked.next_lt origin other old
      · exact present
    · intro origin
      rw [next]
      split
      next same =>
        subst same
        rw [← List.concat_eq_append]
        exact .concat known (linked.next_nodup origin)
      next => exact linked.next_nodup origin
    · intro other
      rw [prev]
      split
      next same =>
        subst same
        rw [← List.concat_eq_append]
        exact .concat apart (linked.prev_nodup other)
      next => exact linked.prev_nodup other
    · intro origin other
      rw [mem_nextOf_connect graph inside, prev]
      by_cases isTarget : other = target
      · simp [isTarget, linked.mem_prevOf]
      · simp [isTarget, linked.mem_prevOf]

/-- Adding edges one after the other adds those edges and no others. -/
theorem connect_all (graph : Graph ν) (linked : graph.Linked) (edges : List (Nat × Nat))
    (inside : ∀ edge ∈ edges, edge.1 < graph.size ∧ edge.2 < graph.size) :
    let linkedAll := edges.foldl (fun graph edge => graph.connect edge.1 edge.2) graph
    linkedAll.Linked ∧ linkedAll.size = graph.size ∧
      (∀ source target, target ∈ linkedAll.nextOf source ↔
        target ∈ graph.nextOf source ∨ (source, target) ∈ edges) ∧
      ∀ id, (linkedAll.node? id).map (fun node => (node.label, node.value)) =
        (graph.node? id).map fun node => (node.label, node.value) := by
  induction edges generalizing graph with
  | nil => exact ⟨linked, rfl, by simp, fun _ => rfl⟩
  | cons edge edges ih =>
    obtain ⟨source, target⟩ := edge
    obtain ⟨first, second⟩ := inside _ List.mem_cons_self
    have step := linked.connect first second
    obtain ⟨links, size, members, nodes⟩ := ih (graph.connect source target) step (by
      intro other member
      rw [size_connect]
      exact inside other (List.mem_cons_of_mem _ member))
    refine ⟨links, size.trans (size_connect graph source target), ?_, ?_⟩
    · intro origin other
      rw [List.foldl_cons, members, mem_nextOf_connect graph first, List.mem_cons, Prod.mk.injEq,
        or_assoc]
    · intro id
      rw [List.foldl_cons, nodes]
      by_cases known : target ∈ graph.nextOf source
      · rw [connect_of_not graph (.inr known)]
      · rw [node?_connect graph first known, Option.map_map]
        rfl

/-- Nodes added one after the other stand in order behind those there were. -/
theorem nodes_addAll (graph : Graph ν) (nodes : List (String × ν)) :
    (nodes.foldl (fun graph node => graph.addNode node.1 node.2) graph).nodes.toList =
      graph.nodes.toList ++ (nodes.zipIdx graph.size).map fun (node, id) =>
        { id, label := node.1, value := node.2 } := by
  induction nodes generalizing graph with
  | nil => simp
  | cons node nodes ih =>
    rw [List.foldl_cons, ih, size_addNode]
    simp [addNode, size]

/-- Nodes added to nothing are as many as are given. -/
theorem size_addAll (nodes : List (String × ν)) :
    (nodes.foldl (fun graph node => graph.addNode node.1 node.2) ({} : Graph ν)).size =
      nodes.length := by
  have listed := congrArg List.length (nodes_addAll ({} : Graph ν) nodes)
  simpa [size] using listed

/-- A graph of given nodes and edges between them is linked, and has those nodes, those edges and
that root. -/
theorem ofLists_spec (nodes : List (String × ν)) (edges : List (Nat × Nat)) (root : Option Nat)
    (inside : ∀ edge ∈ edges, edge.1 < nodes.length ∧ edge.2 < nodes.length) :
    (ofLists nodes edges root).Linked ∧ (ofLists nodes edges root).size = nodes.length ∧
      (∀ source target, target ∈ (ofLists nodes edges root).nextOf source ↔
        (source, target) ∈ edges) ∧
      (∀ id, ((ofLists nodes edges root).node? id).map (fun node => (node.label, node.value)) =
        nodes[id]?) ∧
      (ofLists nodes edges root).root = root := by
  set unlinked : Graph ν := nodes.foldl (fun graph node => graph.addNode node.1 node.2) {}
    with unlinked_def
  have stands (id : Nat) : unlinked.node? id =
      nodes[id]?.map fun node => { id, label := node.1, value := node.2 } := by
    have listed := nodes_addAll ({} : Graph ν) nodes
    rw [node?, ← Array.getElem?_toList, unlinked_def, listed]
    cases found : nodes[id]? <;> simp [size, found]
  have size_eq : unlinked.size = nodes.length := size_addAll nodes
  have noNext (id : Nat) : unlinked.nextOf id = [] := by
    rw [nextOf, stands]
    cases nodes[id]? <;> rfl
  have noPrev (id : Nat) : unlinked.prevOf id = [] := by
    rw [prevOf, stands]
    cases nodes[id]? <;> rfl
  have bare : unlinked.Linked := by
    constructor
    · intro id node found
      rw [stands, Option.map_eq_some_iff] at found
      obtain ⟨_, _, rfl⟩ := found
      rfl
    · simp [noNext]
    · simp [noNext]
    · simp [noPrev]
    · simp [noNext, noPrev]
  obtain ⟨linked, size, members, kept⟩ := connect_all unlinked bare edges (by rwa [size_eq])
  refine ⟨⟨linked.id_eq, linked.next_lt, linked.next_nodup, linked.prev_nodup, linked.mem_prevOf⟩,
    size.trans size_eq, ?_, ?_, rfl⟩
  · intro source target
    refine (members source target).trans ?_
    simp [noNext]
  · intro id
    refine (kept id).trans ?_
    rw [stands, Option.map_map]
    cases nodes[id]? <;> rfl

/-- A graph made from nothing by adding nodes, adding edges between its nodes and choosing roots. -/
inductive Built : Graph ν → Prop
  | empty : Built {}
  | addNode {graph : Graph ν} (built : Built graph) (label : String) (value : ν) :
    Built (graph.addNode label value)
  | connect {graph : Graph ν} (built : Built graph) {source target : Nat}
    (inside : source < graph.size) (present : target < graph.size) :
    Built (graph.connect source target)
  | setRoot {graph : Graph ν} (built : Built graph) (root : Nat) : Built (graph.setRoot root)

/-- The nodes after one has been added. -/
theorem node?_addNode_eq (graph : Graph ν) (label : String) (value : ν) (id : Nat) :
    (graph.addNode label value).node? id =
      if id = graph.size then some { id := graph.size, label, value } else graph.node? id := by
  rw [addNode, node?, Array.getElem?_push]
  rfl

/-- A new node leads nowhere. -/
theorem nextOf_addNode (graph : Graph ν) (label : String) (value : ν) (id : Nat) :
    (graph.addNode label value).nextOf id = graph.nextOf id := by
  rw [nextOf, nextOf, node?_addNode_eq]
  split
  next new =>
    have missing : graph.node? id = none := Array.getElem?_eq_none (Nat.le_of_eq new.symm)
    rw [missing]
    rfl
  next => rfl

/-- Nothing leads to a new node. -/
theorem prevOf_addNode (graph : Graph ν) (label : String) (value : ν) (id : Nat) :
    (graph.addNode label value).prevOf id = graph.prevOf id := by
  rw [prevOf, prevOf, node?_addNode_eq]
  split
  next new =>
    have missing : graph.node? id = none := Array.getElem?_eq_none (Nat.le_of_eq new.symm)
    rw [missing]
    rfl
  next => rfl

/-- Adding a node keeps a graph linked. -/
theorem Linked.addNode {graph : Graph ν} (linked : graph.Linked) (label : String) (value : ν) :
    (graph.addNode label value).Linked := by
  constructor
  · intro id node found
    rw [node?_addNode_eq] at found
    split at found
    next new => rw [← Option.some.inj found, new]
    next => exact linked.id_eq id node found
  · intro source target follows
    rw [nextOf_addNode] at follows
    rw [size_addNode]
    exact Nat.lt_succ_of_lt (linked.next_lt source target follows)
  · simpa only [nextOf_addNode] using linked.next_nodup
  · simpa only [prevOf_addNode] using linked.prev_nodup
  · simpa only [nextOf_addNode, prevOf_addNode] using linked.mem_prevOf

/-- A graph that was built step by step is linked. -/
theorem Built.linked {graph : Graph ν} (built : graph.Built) : graph.Linked := by
  induction built with
  | empty => constructor <;> simp [node?, nextOf, prevOf]
  | addNode _ label value ih => exact ih.addNode label value
  | connect _ inside present ih => exact ih.connect inside present
  | setRoot _ root ih => exact ⟨ih.id_eq, ih.next_lt, ih.next_nodup, ih.prev_nodup, ih.mem_prevOf⟩

/-- An edge does not change the root. -/
theorem root_connect (graph : Graph ν) (source target : Nat) :
    (graph.connect source target).root = graph.root := by
  unfold connect
  split <;> rfl

/-- Nodes can be added one after the other. -/
theorem Built.addAll {graph : Graph ν} (built : graph.Built) (nodes : List (String × ν)) :
    let added := nodes.foldl (fun graph node => graph.addNode node.1 node.2) graph
    added.Built ∧ added.root = graph.root := by
  induction nodes generalizing graph with
  | nil => exact ⟨built, rfl⟩
  | cons node nodes ih => exact ih (built.addNode node.1 node.2)

/-- Edges between nodes can be added one after the other. -/
theorem Built.connectAll {graph : Graph ν} (built : graph.Built) (edges : List (Nat × Nat))
    (inside : ∀ edge ∈ edges, edge.1 < graph.size ∧ edge.2 < graph.size) :
    let linked := edges.foldl (fun graph edge => graph.connect edge.1 edge.2) graph
    linked.Built ∧ linked.root = graph.root := by
  induction edges generalizing graph with
  | nil => exact ⟨built, rfl⟩
  | cons edge edges ih =>
    obtain ⟨first, second⟩ := inside _ List.mem_cons_self
    obtain ⟨whole, root⟩ := ih (built.connect first second) fun other member => by
      rw [size_connect]
      exact inside other (List.mem_cons_of_mem _ member)
    exact ⟨whole, root.trans (root_connect graph edge.1 edge.2)⟩

/-- A graph of given nodes and edges between them can be built step by step. -/
theorem built_ofLists (nodes : List (String × ν)) (edges : List (Nat × Nat)) (root : Option Nat)
    (inside : ∀ edge ∈ edges, edge.1 < nodes.length ∧ edge.2 < nodes.length) :
    (ofLists nodes edges root).Built := by
  obtain ⟨added, noRoot⟩ := Built.empty.addAll nodes
  obtain ⟨linked, sameRoot⟩ := added.connectAll edges (by rwa [size_addAll])
  cases root with
  | some root => exact linked.setRoot root
  | none =>
    have rootless := sameRoot.trans noRoot
    rw [ofLists]
    convert linked using 1
    exact congrArg _ rootless.symm

end Midend.Graph
