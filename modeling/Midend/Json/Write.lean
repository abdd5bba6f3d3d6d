import Midend.Decimal.Layout
import Midend.Json.Value

/-!
# Writing JSON

Two layouts of the same value: on one line without blanks, and indented by two blanks a level with
every item on a line of its own. Strings escape the quote, the backslash and control characters and
leave everything else as it is. JSON has no numbers that are not finite; where one would stand, null
is written.
-/

namespace Midend.Json

/-- A hexadecimal digit in lower case. -/
def hexLetter (digit : Nat) : Char :=
  if digit < 10 then Char.ofNat ('0'.toNat + digit) else Char.ofNat ('a'.toNat + (digit - 10))

/-- One character inside a string. -/
def escaped (character : Char) : List Char :=
  if character = '"' then ['\\', '"']
  else if character = '\\' then ['\\', '\\']
  else if character = '\x08' then ['\\', 'b']
  else if character = '\x0c' then ['\\', 'f']
  else if character = '\n' then ['\\', 'n']
  else if character = '\r' then ['\\', 'r']
  else if character = '\t' then ['\\', 't']
  else if character < ' ' then
    ['\\', 'u', '0', '0', hexLetter (character.toNat / 16), hexLetter (character.toNat % 16)]
  else [character]

/-- A string between its quotes. -/
def writeText (text : String) : List Char :=
  '"' :: text.toList.flatMap escaped ++ ['"']

/-- The letters of a value that is no list and no object. -/
def writeScalar : Value → List Char
  | .boolean value => (toString value).toList
  | .integer value => (toString value).toList
  | .real value =>
    if value.isFinite then (Decimal.Layout.json.write value).toList else ['n', 'u', 'l', 'l']
  | .text value => writeText value
  | _ => ['n', 'u', 'l', 'l']

/-- A line break and the indentation of a level. -/
def newline (level : Nat) : List Char :=
  '\n' :: List.replicate (2 * level) ' '

mutual

/-- A value at a level of indentation. -/
def writePretty (level : Nat) : Value → List Char
  | .list [] => ['[', ']']
  | .list (first :: others) =>
    '[' :: newline (level + 1) ++ writePretty (level + 1) first ++ writeItems level others
  | .object [] => ['\x7b', '\x7d']
  | .object ((name, value) :: others) =>
    '\x7b' :: newline (level + 1) ++ writeText name ++ [':', ' '] ++ writePretty (level + 1) value
      ++ writeMembers level others
  | value => writeScalar value

/-- The items of a list after the first, and its closing bracket. -/
def writeItems (level : Nat) : List Value → List Char
  | [] => newline level ++ [']']
  | item :: others =>
    ',' :: newline (level + 1) ++ writePretty (level + 1) item ++ writeItems level others

/-- The members of an object after the first, and its closing brace. -/
def writeMembers (level : Nat) : List (String × Value) → List Char
  | [] => newline level ++ ['\x7d']
  | (name, value) :: others =>
    ',' :: newline (level + 1) ++ writeText name ++ [':', ' '] ++ writePretty (level + 1) value
      ++ writeMembers level others

end

mutual

/-- A value on one line. -/
def writeCompact : Value → List Char
  | .list [] => ['[', ']']
  | .list (first :: others) => '[' :: writeCompact first ++ writeCompactItems others
  | .object [] => ['\x7b', '\x7d']
  | .object ((name, value) :: others) =>
    '\x7b' :: writeText name ++ ':' :: writeCompact value ++ writeCompactMembers others
  | value => writeScalar value

/-- The items of a list after the first, and its closing bracket. -/
def writeCompactItems : List Value → List Char
  | [] => [']']
  | item :: others => ',' :: writeCompact item ++ writeCompactItems others

/-- The members of an object after the first, and its closing brace. -/
def writeCompactMembers : List (String × Value) → List Char
  | [] => ['\x7d']
  | (name, value) :: others =>
    ',' :: writeText name ++ ':' :: writeCompact value ++ writeCompactMembers others

end

/-- The indented text of a value. -/
def Value.pretty (value : Value) : String :=
  String.ofList (writePretty 0 value)

/-- The text of a value on one line. -/
def Value.compact (value : Value) : String :=
  String.ofList (writeCompact value)

end Midend.Json
