import Midend.Block.Build
import Midend.Dataflow.Machine
import Midend.Graph.ControlFlow

/-!
# Dominance

A block dominates another when control cannot reach the other without passing through it. Blocks
that control never reaches have no entry. The results can be left in the blocks as remarks.
-/

namespace Midend

/-- `DominanceKind` — whether a block counts among its own dominators. -/
inductive Dominance
  | strict
  | nonStrict
deriving DecidableEq, Repr

/-- `Dominance` — the analysis of dominance over a block graph: what dominates a block dominates it
on every way in. -/
def dominanceAnalysis : Analysis Block String where
  gen node := [node.value.label]
  kill _ _ _ := []
  merge := Facts.intersection

/-- The names of the dominators of each block, by the name of the block. -/
abbrev Dominators := Std.TreeMap String (List String)

/-- The machine for the dominators of some blocks. -/
def dominanceMachine (blocks : List Block) (options : Options) :
    Except Fault (Machine Block String) := do
  let graph ← blockGraph blocks
  return { analysis := dominanceAnalysis, graph, order := options.order }

/-- The facts about a node that answer for a kind of dominance. -/
def Machine.dominatorsOf? (machine : Machine Block String) (kind : Dominance) (id : Nat) :
    Option (List String) :=
  match kind with
  | .strict => machine.inputs[id]?
  | .nonStrict => machine.outputs[id]?

/-- `compute_dominators` — the dominators of every block that control reaches, in the order of the
blocks; of blocks with one name the last counts. -/
def dominators (blocks : List Block) (kind : Dominance) (options : Options) :
    Except Fault Dominators := do
  if blocks.isEmpty then return ∅
  let machine ← (← dominanceMachine blocks options).settle
  let labels := blocks.map Block.label
  return blocks.zipIdx.foldl (fun byLabel (block, id) =>
    match machine.dominatorsOf? kind id with
    | none => byLabel
    | some facts => byLabel.insert block.label (labels.filter facts.contains)) ∅

/-- The note of `annotate_dominance` — the remark that lists the dominators of a block. -/
def Dominance.note (kind : Dominance) (labels : List String) : String :=
  let relation := match kind with
    | strict => "strictly dominated by"
    | nonStrict => "dominated by"
  relation ++ ": " ++ ", ".intercalate labels

/-- `annotate_dominance` — the blocks with remarks on their dominators. -/
def noteDominators (blocks : List Block) (kind : Dominance) (options : Options) :
    Except Fault (List Block) := do
  let byLabel ← dominators blocks kind options
  return blocks.map fun block =>
    match byLabel[block.label]? with
    | none => block
    | some labels => block.annotate (kind.note labels)

/-- `dominators` — the dominators of the blocks of every function, by the name of the function. -/
def BlocksByName.dominators (functions : BlocksByName) (kind : Dominance) (options : Options) :
    Except Fault (Std.TreeMap String Dominators) :=
  functions.foldlM (fun byName name blocks => do
    return byName.insert name (← Midend.dominators blocks kind options)) ∅

/-- The loop of `dominance` — annotates functions in the order given until one fails; that one and
those after it stay as they are. -/
def noteInOrder (kind : Dominance) (options : Options) :
    List (String × List Block) → List (String × List Block) × Except Fault Unit
  | [] => ([], .ok ())
  | (name, blocks) :: functions =>
    match noteDominators blocks kind options with
    | .error fault => ((name, blocks) :: functions, .error fault)
    | .ok annotated =>
      let (others, outcome) := noteInOrder kind options functions
      ((name, annotated) :: others, outcome)

/-- `dominance` — annotates the blocks of every function, in the order of their names, until one
fails. -/
def BlocksByName.noteDominators (functions : BlocksByName) (kind : Dominance) (options : Options) :
    BlocksByName × Except Fault Unit :=
  let (annotated, outcome) := noteInOrder kind options functions.toList
  (.ofList annotated, outcome)

end Midend
