import Midend.Lang.Opcode
import Midend.Lang.Type

/-!
# Instructions

A function body is a list of entries, each a label or an instruction. An instruction is a constant,
a value operation or an effect operation; the last two name variables, functions and labels, which
`Operands` keeps together.
-/

namespace Midend.Lang

/-- What an operation names. -/
structure Operands where
  /-- Variables read. -/
  args : List String := []
  /-- Functions called. -/
  funcs : List String := []
  /-- Labels control may pass to. -/
  labels : List String := []
deriving DecidableEq, Repr, Inhabited

/-- An instruction. -/
inductive Instruction
  | const (dest : String) (ty : Ty) (value : Literal) (pos : Option Position)
  | value (op : ValueOp) (dest : String) (ty : Ty) (operands : Operands) (pos : Option Position)
  | effect (op : EffectOp) (operands : Operands) (pos : Option Position)
deriving DecidableEq, Repr

namespace Instruction

/-- `Instruction::op_name` — the name of the operation. -/
def opName : Instruction → String
  | const .. => "const"
  | value op .. => op.name
  | effect op .. => op.name

/-- `Instruction::get_pos` — the place of the instruction in its source. -/
def pos? : Instruction → Option Position
  | const _ _ _ pos | value _ _ _ _ pos | effect _ _ pos => pos

/-- The variable written, with its declared type. -/
def result? : Instruction → Option (String × Ty)
  | const dest ty .. | value _ dest ty .. => some (dest, ty)
  | effect .. => none

/-- `Instruction::dest` — the variable written. -/
def dest? (instr : Instruction) : Option String :=
  instr.result?.map (·.1)

/-- What the operation names; a constant names nothing. -/
def operands : Instruction → Operands
  | const .. => {}
  | value _ _ _ operands _ | effect _ operands _ => operands

/-- `Instruction::args` — the variables read. -/
def args (instr : Instruction) : List String :=
  instr.operands.args

/-- The same instruction reading other variables. -/
def mapArgs (change : String → String) : Instruction → Instruction
  | value op dest ty operands pos =>
    value op dest ty { operands with args := operands.args.map change } pos
  | effect op operands pos => effect op { operands with args := operands.args.map change } pos
  | instr@(const ..) => instr

/-- `Instruction::is_terminator` — control leaves the straight line after `br`, `jmp` and `ret`. -/
def isTerminator : Instruction → Bool
  | effect .br .. | effect .jmp .. | effect .ret .. => true
  | _ => false

/-- `Instruction::jump_targets` — the labels that `br` and `jmp` may pass control to. -/
def jumpTargets : Instruction → List String
  | effect .br operands _ | effect .jmp operands _ => operands.labels
  | _ => []

/-- `Instruction::has_side_effects` — whether the instruction does more than write its
destination. -/
def hasSideEffects : Instruction → Bool
  | const .. => false
  | value op .. => op == .call
  | effect .. => true

end Instruction

/-- `Code` — one entry of a function body. -/
inductive Entry
  /-- A place that control may jump to. -/
  | label (name : String) (pos : Option Position)
  | instr (instruction : Instruction)
deriving DecidableEq, Repr

/-- The instruction of an entry that is not a label. -/
def Entry.instr? : Entry → Option Instruction
  | .label .. => none
  | .instr instruction => some instruction

end Midend.Lang
