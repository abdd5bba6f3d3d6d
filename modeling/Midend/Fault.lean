import Midend.Json.Fault
import Midend.Lang.Signature
import Midend.Lang.Text

/-!
# Faults

Everything that can go wrong between reading a program and changing it, by cause, and the wording
of each.
-/

namespace Midend

open Lang

/-- `AnalysisError` — why an operation on a program failed. -/
inductive Fault
  /-- A block names a successor that no block is called. -/
  | unresolvedLabel (block label : String)
  /-- A graph was to be walked that has no root. -/
  | missingRoot
  /-- A graph was walked into a node that it does not have. -/
  | unknownNode (id : Nat)
  /-- An instruction has not the shape of its operation. -/
  | misshapen (instr : Instruction) (defect : Defect)
  /-- The text of the program was not read. -/
  | json (cause : Json.Fault)
deriving DecidableEq, Repr

/-- The wording of a defect of an operation. -/
def Lang.Defect.message (op : String) : Defect → String
  | argCount expected found => s!"`{op}` expects {expected} arguments, found {found}"
  | labelCount expected found => s!"`{op}` expects {expected} labels, found {found}"
  | funcCount expected found => s!"`{op}` expects {expected} functions, found {found}"
  | result => s!"`{op}` destination does not match its signature"

/-- The wording of a fault. Text that is not JSON has no wording of its own. -/
def Fault.message : Fault → String
  | unresolvedLabel block label =>
    s!"block `{block}` jumps to label `{label}` which does not exist"
  | missingRoot => "graph has no root node"
  | unknownNode id => s!"node {id} is not part of the graph"
  | misshapen instr defect =>
    "malformed instruction `" ++ instr.text ++ "`: " ++ defect.message instr.opName
  | json (.mismatch cause) => "invalid bril json: " ++ cause.message
  | json _ => "invalid bril json"

/-- `AnalysisError::is_malformed_graph` — faults of a control flow graph that cannot be built or
walked. -/
def Fault.concernsGraph : Fault → Bool
  | unresolvedLabel .. | missingRoot | unknownNode _ => true
  | misshapen .. | json _ => false

/-- `Signature::check_arity` — succeeds for an instruction that has the shape of its operation. -/
def Lang.Instruction.checkShape (instr : Instruction) : Except Fault Unit :=
  match instr.defect? with
  | some defect => .error (.misshapen instr defect)
  | none => .ok ()

end Midend
