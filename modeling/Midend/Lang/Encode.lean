import Midend.Json.Write
import Midend.Lang.Function

/-!
# Programs as JSON

Fields come in a fixed order; lists that are empty and things that are absent are left out, except
that the body of a function is always there.
-/

namespace Midend.Lang

open Json (Value)

/-- A type: its name, or for a pointer an object around the type pointed to. -/
def Ty.encode : Ty → Value
  | int => .text "int"
  | bool => .text "bool"
  | float => .text "float"
  | char => .text "char"
  | ptr target => .object [("ptr", target.encode)]

/-- A literal; a character is a string of its own. -/
def Literal.encode : Literal → Value
  | int value => .integer value.toInt
  | bool value => .boolean value
  | float value => .real value
  | char value => .text value.toString

/-- A position. -/
def Position.encode (pos : Position) : Value :=
  .object [("row", .integer pos.row.toNat), ("col", .integer pos.col.toNat)]

/-- A member for something that may be absent. -/
def member? (name : String) (value : Option Value) : List (String × Value) :=
  value.toList.map fun value => (name, value)

/-- A member for a list that may be empty. -/
def membersOf (name : String) (items : List Value) : List (String × Value) :=
  if items.isEmpty then [] else [(name, .list items)]

/-- The member for a position. -/
def posMember (pos : Option Position) : List (String × Value) :=
  member? "pos" (pos.map Position.encode)

/-- The members for what an operation names. -/
def Operands.members (operands : Operands) : List (String × Value) :=
  membersOf "args" (operands.args.map .text)
    ++ membersOf "funcs" (operands.funcs.map .text)
    ++ membersOf "labels" (operands.labels.map .text)

/-- An instruction. -/
def Instruction.encode : Instruction → Value
  | const dest ty literal pos =>
    .object ([("op", .text "const"), ("dest", .text dest), ("type", ty.encode),
      ("value", literal.encode)] ++ posMember pos)
  | value op dest ty operands pos =>
    .object ([("op", .text op.name), ("dest", .text dest), ("type", ty.encode)]
      ++ operands.members ++ posMember pos)
  | effect op operands pos =>
    .object ([("op", .text op.name)] ++ operands.members ++ posMember pos)

/-- An entry of a function body. -/
def Entry.encode : Entry → Value
  | label name pos => .object ([("label", .text name)] ++ posMember pos)
  | instr instruction => instruction.encode

/-- A parameter. -/
def Parameter.encode (param : Parameter) : Value :=
  .object [("name", .text param.name), ("type", param.ty.encode)]

/-- A function. -/
def Function.encode (function : Function) : Value :=
  .object ([("name", .text function.name)]
    ++ membersOf "args" (function.params.map Parameter.encode)
    ++ [("instrs", .list (function.body.map Entry.encode))]
    ++ member? "type" (function.returns.map Ty.encode)
    ++ posMember function.pos)

/-- A program. -/
def Program.encode (program : Program) : Value :=
  .object [("functions", .list (program.functions.map Function.encode))]

/-- `Program::to_json` — the indented JSON text of a program. -/
def Program.toJson (program : Program) : String :=
  program.encode.pretty

end Midend.Lang
