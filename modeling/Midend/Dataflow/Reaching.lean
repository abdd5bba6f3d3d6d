import Midend.Block.Build
import Midend.Dataflow.Machine
import Midend.Graph.ControlFlow
import Std.Data.TreeSet

/-!
# Reaching definitions

Which assignments may have given a variable the value that an instruction sees. A definition is a
variable with the row of the instruction that wrote it; parameters are defined on the row of the
header. An assignment puts an end to the definitions of its variable on other rows.
-/

namespace Midend

open Lang

/-- An assignment to a variable. -/
structure Definition where
  name : String
  row : Nat
deriving DecidableEq, Repr

/-- The definition that a node makes, if its instruction has a destination; `rows` are those of the
instructions. -/
def definitionAt? (rows : Array Nat) (node : Node Site) : Option Definition :=
  node.value.instr.dest?.map fun name => ⟨name, (rows[node.id]?).getD 0⟩

/-- A definition on another row of the same variable. -/
def Definition.isReplacedBy (definition other : Definition) : Bool :=
  definition.name == other.name && definition.row != other.row

/-- `ReachingDefinitions` — the analysis of reaching definitions over a function's instruction
graph. -/
def reachingAnalysis (rows : Array Nat) : Analysis Site Definition where
  gen node := (definitionAt? rows node).toList
  kill node input _ :=
    match definitionAt? rows node with
    | none => []
    | some made => input.filter fun definition => definition.isReplacedBy made
  merge := Facts.unions

/-- `ReachingSet` — the rows of the definitions of each variable. -/
abbrev RowsByName := Std.TreeMap String (Std.TreeSet Nat)

/-- `FuncReachingDefs` — what reaches the instructions, by their rows. -/
abbrev ReachingByRow := Std.TreeMap Nat RowsByName

/-- Definitions gathered by variable. -/
def rowsByName (definitions : List Definition) : RowsByName :=
  definitions.foldl
    (fun byName made => byName.insert made.name ((byName.getD made.name ∅).insert made.row)) ∅

/-- The machine for the reaching definitions of a function, not seeded yet. -/
def Lang.Function.reachingMachine (function : Function) (options : Options) :
    Except Fault (Machine Site Definition) := do
  let graph ← instrGraph function.blocks
  return { analysis := reachingAnalysis function.rows.toArray, graph, order := options.order }

/-- The parameters as definitions. -/
def Lang.Function.paramDefinitions (function : Function) : List Definition :=
  function.params.map fun param => ⟨param.name, function.headerRow⟩

/-- `function_reaching_definitions` — the definitions that reach each instruction that control
reaches; of instructions on one row the last counts. A function without instructions has none. -/
def Lang.Function.reachingDefinitions (function : Function) (options : Options) :
    Except Fault ReachingByRow := do
  let machine ← function.reachingMachine options
  match machine.graph.root with
  | none => return ∅
  | some root =>
    let machine ← (machine.seed root function.paramDefinitions).settle
    let rows := function.rows.toArray
    return machine.graph.nodes.foldl (fun byRow node =>
      match machine.inputs[node.id]? with
      | none => byRow
      | some definitions =>
        byRow.insert ((rows[node.id]?).getD 0) (rowsByName definitions)) ∅

/-- `reaching_definitions` — the reaching definitions of every function; of functions with one name
the last counts. A function whose graph cannot be built has none. -/
def Lang.Program.reachingDefinitions (program : Program) (options : Options) :
    Std.TreeMap String ReachingByRow :=
  program.functions.foldl (fun byName function =>
    byName.insert function.name ((function.reachingDefinitions options).toOption.getD ∅)) ∅

end Midend
