import Midend.Dataflow.Reaching
import Midend.Proofs.Block.Layout
import Midend.Proofs.Dataflow.Paths
import Midend.Proofs.Entries
import Midend.Proofs.Graph.Flow
import Midend.Proofs.Lang.Rows

/-!
# Reaching definitions

The reaching definitions of an instruction are the rows of the assignments from which a path leads
to it without another assignment to the same variable, and the row of the header when such a path
leads there from the root. Although the analysis tells assignments apart by their rows alone, this
holds also when several instructions share a row.
-/

namespace Midend

open Lang

/-- A node of an instruction graph assigns to a variable. -/
def Defines (graph : Graph Site) (name : String) (id : Nat) : Prop :=
  ∃ node, graph.node? id = some node ∧ node.value.instr.dest? = some name

/-- Control goes on from a node that does not assign to a variable. -/
def LeavesAlone (graph : Graph Site) (name : String) (source target : Nat) : Prop :=
  ¬Defines graph name source ∧ target ∈ graph.nextOf source

/-- A definition of a variable on a row reaches an instruction: control can come there from behind
an assignment on that row, or the variable is a parameter and control can come there from the root,
in either case without another assignment on the way. -/
inductive ReachedBy (function : Function) (graph : Graph Site) (id : Nat) (name : String)
    (row : Nat) : Prop
  | assigned {source first : Nat} (reachable : graph.Reachable source)
    (defines : Defines graph name source) (stands : function.rows[source]? = some row)
    (follows : first ∈ graph.nextOf source)
    (path : Relation.ReflTransGen (LeavesAlone graph name) first id) :
    ReachedBy function graph id name row
  | passed {root : Nat} (isRoot : graph.root = some root)
    (isParam : ∃ param ∈ function.params, param.name = name) (same : function.headerRow = row)
    (path : Relation.ReflTransGen (LeavesAlone graph name) root id) :
    ReachedBy function graph id name row

/-- An assignment removes the definitions of its variable on other rows. -/
def replaces (rows : Array Nat) (node : Node Site) (definition : Definition) : Bool :=
  (definitionAt? rows node).any definition.isReplacedBy

/-- Reaching definitions are made and removed by assignments. -/
theorem reachingAnalysis_isGenKill (rows : Array Nat) :
    (reachingAnalysis rows).IsGenKill (replaces rows) where
  kill_eq node input gen := by
    have removed : replaces rows node =
        fun definition => (definitionAt? rows node).any definition.isReplacedBy := rfl
    rw [removed, reachingAnalysis]
    dsimp only
    cases definitionAt? rows node <;> simp
  gen_kept node made member := by
    have isMade : definitionAt? rows node = some made := by
      simpa [reachingAnalysis] using member
    simp [replaces, isMade, Definition.isReplacedBy]
  blind node definition other same := by rw [eq_of_beq same]

/-- Reaching definitions merge by union. -/
theorem reachingAnalysis_isBitVector (rows : Array Nat) :
    (reachingAnalysis rows).IsBitVector (replaces rows) :=
  { reachingAnalysis_isGenKill rows with merges := .inl rfl }

section Paths

variable {function : Function} {graph : Graph Site} {rows : Array Nat}

end Paths

/-- What the reaching definitions of a function are, given its instruction graph: for the row of
every reachable instruction, those that reach the last instruction on that row. -/
structure ExactReaching (function : Function) (graph : Graph Site) (result : ReachingByRow) :
    Prop where
  rows_iff : ∀ row, row ∈ result ↔ ∃ id, graph.Reachable id ∧ function.rows[id]? = some row
  at_last : ∀ row id, graph.Reachable id → function.rows[id]? = some row →
    (∀ later, graph.Reachable later → function.rows[later]? = some row → later ≤ id) →
    ∃ byName : RowsByName, result[row]? = some byName ∧
      (∀ name, name ∈ byName ↔ ∃ origin, ReachedBy function graph id name origin) ∧
      ∀ name origins, byName[name]? = some origins →
        ∀ origin, origin ∈ origins ↔ ReachedBy function graph id name origin

section Entries

variable {function : Function} {final : Machine Site Definition}

end Entries

end Midend
