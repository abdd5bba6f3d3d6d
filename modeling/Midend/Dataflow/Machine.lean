import Midend.Dataflow.Facts
import Midend.Dataflow.Worklist
import Midend.Fault
import Midend.Graph.Basic
import Std.Data.TreeMap

/-!
# Data-flow analysis

A machine carries facts along the edges of a graph. Visiting a node merges what flows in from its
predecessors, adds the facts that the node makes true and takes away those that it makes false:
`out = (merge ∪ gen) \ kill`. When the outcome differs from that of the previous visit, the
successors are visited again.

Whether this ends depends on the analysis, so a run is given a number of visits that it may make.
For an analysis whose facts only grow or only shrink, `Machine.limit` is enough.
-/

namespace Midend

/-- `DataFlow` — what a node does to facts of type `φ`, and how facts from several predecessors
merge. -/
structure Analysis (ν φ : Type) where
  /-- The facts that a node makes true. -/
  gen : Node ν → List φ
  /-- The facts that a node makes false, given those that flow in and those that it makes true. -/
  kill : Node ν → (input gen : List φ) → List φ
  /-- One list of facts from several. -/
  merge : List (List φ) → List φ

/-- `DataFlowMachine` — an analysis under way. -/
structure Machine (ν φ : Type) where
  analysis : Analysis ν φ
  graph : Graph ν
  order : Order := .fifo
  /-- Facts that flow into a node besides those from its predecessors. -/
  seeds : Std.TreeMap Nat (List φ) := ∅
  /-- What flowed into each node at its last visit. -/
  inputs : Std.TreeMap Nat (List φ) := ∅
  /-- What flowed out of each node when it last changed. -/
  outputs : Std.TreeMap Nat (List φ) := ∅
  /-- How many visits have been made. -/
  visits : Nat := 0

/-- How a run ends. -/
inductive Outcome
  /-- No node is waiting. -/
  | finished
  | failed (fault : Fault)
  /-- Nodes are waiting, but no further visit is allowed. -/
  | exhausted
deriving DecidableEq, Repr

namespace Machine

variable {ν φ : Type}

/-- `DataFlowMachine::init` — the machine with facts that flow into a node from outside. -/
def seed (machine : Machine ν φ) (id : Nat) (facts : List φ) : Machine ν φ :=
  { machine with seeds := machine.seeds.insert id facts }

/-- The first predecessor of a node that the graph does not have. -/
def missingPred? (machine : Machine ν φ) (node : Node ν) : Option Nat :=
  node.prev.find? fun id => (machine.graph.node? id).isNone

/-- `merge_input` — what flows out of the visited predecessors of a node, preceded by its seed. The
root has an entry from outside even without a seed. -/
def incoming (machine : Machine ν φ) (node : Node ν) : List (List φ) :=
  let outside :=
    match machine.seeds[node.id]? with
    | some facts => [facts]
    | none => if machine.graph.root = some node.id then [[]] else []
  outside ++ node.prev.filterMap fun id => machine.outputs[id]?

/-- What flows into a node. -/
def input (machine : Machine ν φ) (node : Node ν) : List φ :=
  match machine.incoming node with
  | [] => []
  | lists => machine.analysis.merge lists

variable [BEq φ]

/-- What flows out of a node that the given facts flow into. -/
def transfer (analysis : Analysis ν φ) (node : Node ν) (input : List φ) : List φ :=
  let gen := analysis.gen node
  Facts.without (Facts.union input gen) (analysis.kill node input gen)

/-- Visits a node. The second component tells whether its outcome changed. -/
def visit (machine : Machine ν φ) (node : Node ν) : Machine ν φ × Bool :=
  let input := machine.input node
  let output := transfer machine.analysis node input
  let visited := { machine with
    inputs := machine.inputs.insert node.id input
    visits := machine.visits + 1 }
  let isChanged :=
    match machine.outputs[node.id]? with
    | some previous => !Facts.same previous output
    | none => true
  if isChanged then ({ visited with outputs := visited.outputs.insert node.id output }, true)
  else (visited, false)

/-- The loop of `run` — visits waiting nodes until none is left, with at most the given number of
visits. A node that the graph does not have, whether it waits or precedes one that does, ends it. -/
def drain : (allowed : Nat) → Worklist → Machine ν φ → Machine ν φ × Outcome
  | allowed, worklist, machine =>
    match worklist.pop? with
    | none => (machine, .finished)
    | some (id, rest) =>
      match machine.graph.node? id with
      | none => (machine, .failed (.unknownNode id))
      | some node =>
        match allowed with
        | 0 => (machine, .exhausted)
        | allowed + 1 =>
          match machine.missingPred? node with
          | some pred =>
            ({ machine with visits := machine.visits + 1 }, .failed (.unknownNode pred))
          | none =>
            match machine.visit node with
            | (machine, true) => drain allowed (rest.pushAll node.next) machine
            | (machine, false) => drain allowed rest machine

/-- `DataFlowMachine::run` — starts at the root and goes on until no node is waiting, with at most
the given number of visits. -/
def runWithin (allowed : Nat) (machine : Machine ν φ) : Machine ν φ × Outcome :=
  match machine.graph.root with
  | none => (machine, .failed .missingRoot)
  | some root => drain allowed { order := machine.order, waiting := [root] } machine

/-- The facts that nodes make true or that are seeded, each once. -/
def facts (machine : Machine ν φ) : List φ :=
  Facts.unions
    (machine.graph.nodes.toList.map machine.analysis.gen ++ machine.seeds.toList.map (·.2))

/-- A number of visits that is enough when facts only grow or only shrink: one for the root, and
for each edge one more than there are facts. -/
def limit (machine : Machine ν φ) : Nat :=
  1 + machine.graph.edgeCount * (machine.facts.length + 1)

/-- Starts at the root and goes on until no node is waiting or the limit is reached. -/
def run (machine : Machine ν φ) : Machine ν φ × Outcome :=
  machine.runWithin machine.limit

/-- The machine after its run, if the graph could be walked. -/
def settle (machine : Machine ν φ) : Except Fault (Machine ν φ) :=
  match machine.run with
  | (machine, .finished) => .ok machine
  | (_, .failed fault) => .error fault
  -- The limit is enough for the analyses that are settled here, so that no node is left waiting.
  | (machine, .exhausted) => .ok machine

end Machine

end Midend
