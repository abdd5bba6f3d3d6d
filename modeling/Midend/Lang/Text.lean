import Midend.Decimal.Layout
import Midend.Lang.Function

/-!
# Canonical text

The text form of a program: one line for each header and entry, labels at the margin and
instructions behind two blanks. Positions are not written.
-/

namespace Midend.Lang

/-- A type as it is written in text. -/
def Ty.text : Ty → String
  | int => "int"
  | bool => "bool"
  | float => "float"
  | char => "char"
  | ptr target => "ptr<" ++ target.text ++ ">"

/-- A character between single quotes; the control characters that have a letter of their own are
written as escapes, and nothing else is. -/
def charText (character : Char) : String :=
  if character = '\x00' then "'\\0'"
  else if character = '\x07' then "'\\a'"
  else if character = '\x08' then "'\\b'"
  else if character = '\t' then "'\\t'"
  else if character = '\n' then "'\\n'"
  else if character = '\x0b' then "'\\v'"
  else if character = '\x0c' then "'\\f'"
  else if character = '\r' then "'\\r'"
  else "'" ++ character.toString ++ "'"

/-- `literal_to_text` — a literal as it is written in a constant of a given type: a character is
quoted only where the type is `char`. -/
def Literal.text (ty : Ty) : Literal → String
  | int value => toString value.toInt
  | bool value => toString value
  | float value => Decimal.canonical value
  | char value => if ty = .char then charText value else value.toString

/-- Names, each behind a mark. -/
def marked (mark : String) (names : List String) : String :=
  String.join (names.map fun name => mark ++ name)

/-- What an operation names: functions, variables, labels. -/
def Operands.text (operands : Operands) : String :=
  marked " @" operands.funcs ++ marked " " operands.args ++ marked " ." operands.labels

/-- `instruction_to_text` — an instruction, through its semicolon. -/
def Instruction.text : Instruction → String
  | const dest ty literal _ => dest ++ ": " ++ ty.text ++ " = const " ++ literal.text ty ++ ";"
  | value op dest ty operands _ =>
    dest ++ ": " ++ ty.text ++ " = " ++ op.name ++ operands.text ++ ";"
  | effect op operands _ => op.name ++ operands.text ++ ";"

/-- `code_to_text` — an entry without its indentation. -/
def Entry.text : Entry → String
  | label name _ => "." ++ name ++ ":"
  | instr instruction => instruction.text

/-- The line of an entry. -/
def Entry.line : Entry → String
  | entry@(label ..) => entry.text ++ "\n"
  | entry@(instr _) => "  " ++ entry.text ++ "\n"

/-- `push_args` — the parameters in parentheses; without parameters, nothing. -/
def paramsText (params : List Parameter) : String :=
  if params.isEmpty then ""
  else "(" ++ ", ".intercalate (params.map fun param => param.name ++ ": " ++ param.ty.text) ++ ")"

/-- The return type behind a colon, if there is one. -/
def returnsText : Option Ty → String
  | none => ""
  | some ty => ": " ++ ty.text

/-- `function_to_text` — a function, through its closing brace. -/
def Function.text (function : Function) : String :=
  "@" ++ function.name ++ paramsText function.params ++ returnsText function.returns ++ " \x7b\n"
    ++ String.join (function.body.map Entry.line) ++ "\x7d"

/-- `program_to_text` — the functions of a program, each starting on a line of its own. -/
def Program.text (program : Program) : String :=
  "\n".intercalate (program.functions.map Function.text)

end Midend.Lang
