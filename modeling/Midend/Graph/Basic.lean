/-!
# Directed graphs

The nodes of a graph are numbered from zero in the order in which they were added. Every edge is
kept at both of its ends, and edges do not repeat.
-/

namespace Midend

/-- A node with its links, in the order in which the edges were added. -/
structure Node (ν : Type) where
  id : Nat
  label : String
  value : ν
  /-- The nodes that edges come from. -/
  prev : List Nat := []
  /-- The nodes that edges go to. -/
  next : List Nat := []
deriving Repr

/-- A graph, which may have a root. -/
structure Graph (ν : Type) where
  nodes : Array (Node ν) := #[]
  root : Option Nat := none
deriving Repr

namespace Graph

variable {ν : Type}

/-- `Graph::len` — the number of nodes. -/
def size (graph : Graph ν) : Nat :=
  graph.nodes.size

/-- `Graph::is_empty` — whether there are no nodes. -/
def isEmpty (graph : Graph ν) : Bool :=
  graph.nodes.isEmpty

/-- `Graph::get_node` — the node of a number. -/
def node? (graph : Graph ν) (id : Nat) : Option (Node ν) :=
  graph.nodes[id]?

/-- `Graph::add_node` — the graph with a further node, whose number is the size of the graph
before. -/
def addNode (graph : Graph ν) (label : String) (value : ν) : Graph ν :=
  { graph with nodes := graph.nodes.push { id := graph.size, label, value } }

/-- Whether there is an edge. -/
def hasEdge (graph : Graph ν) (source target : Nat) : Bool :=
  (graph.node? source).any fun node => node.next.contains target

/-- `Graph::add_edge` — the graph with an edge; an edge that it has already is not added again. -/
def connect (graph : Graph ν) (source target : Nat) : Graph ν :=
  if (graph.node? source).isNone || graph.hasEdge source target then graph
  else
    let nodes := graph.nodes.modify source fun node => { node with next := node.next ++ [target] }
    let nodes := nodes.modify target fun node => { node with prev := node.prev ++ [source] }
    { graph with nodes }

/-- Whether an edge has both of its ends in the graph, or was there before. -/
def canConnect (graph : Graph ν) (source target : Nat) : Bool :=
  (graph.node? source).isSome && (graph.hasEdge source target || (graph.node? target).isSome)

/-- `Graph::set_root` — the graph with another root. -/
def setRoot (graph : Graph ν) (root : Nat) : Graph ν :=
  { graph with root := some root }

/-- The number of edges. -/
def edgeCount (graph : Graph ν) : Nat :=
  (graph.nodes.toList.flatMap fun node => node.next).length

/-- The graph with the given nodes, edges and root. -/
def ofLists (nodes : List (String × ν)) (edges : List (Nat × Nat)) (root : Option Nat) :
    Graph ν :=
  let unlinked : Graph ν := nodes.foldl (fun graph node => graph.addNode node.1 node.2) {}
  let linked := edges.foldl (fun graph edge => graph.connect edge.1 edge.2) unlinked
  { linked with root }

/-- A new node makes the graph larger by one. -/
@[simp] theorem size_addNode (graph : Graph ν) (label : String) (value : ν) :
    (graph.addNode label value).size = graph.size + 1 := by
  simp [addNode, size]

/-- An edge does not change the number of nodes. -/
@[simp] theorem size_connect (graph : Graph ν) (source target : Nat) :
    (graph.connect source target).size = graph.size := by
  unfold connect
  split <;> simp [size]

end Graph

end Midend
