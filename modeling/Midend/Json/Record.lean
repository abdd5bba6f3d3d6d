import Midend.Json.Read

/-!
# Records read from text

A typed reader knows what it wants before it looks. A record is wanted as an object with the fields
of the record, or as a list of them in order; members of an object that the record does not know are
passed over. Where something else stands, the fault names what was met and what was expected.

Every reader takes the number of brackets that may still be opened.
-/

namespace Midend.Json

/-- Reads a value of one type, with a given number of brackets left to open. -/
abbrev Reader (α : Type) := (depth : Nat) → List Char → Except Fault (α × List Char)

/-- The kind of the value at the head of the input. Scalars are read in full, so that a fault
inside them comes first. -/
def found (input : List Char) : Except Fault Found :=
  match input with
  | [] => .error .ended
  | 'n' :: rest => do
    let _ ← passWord ['u', 'l', 'l'] rest
    return .null
  | 't' :: rest => do
    let _ ← passWord ['r', 'u', 'e'] rest
    return .boolean true
  | 'f' :: rest => do
    let _ ← passWord ['a', 'l', 's', 'e'] rest
    return .boolean false
  | '"' :: rest => do
    let (text, _) ← readText rest
    return .text text
  | '[' :: _ => .ok .list
  | '{' :: _ => .ok .object
  | first :: _ =>
    if first = '-' || isDigit first then do
      match ← readNumber input with
      | (.integer value, _) => return .integer value
      | (.real value, _) => return .real value
      | _ => .error .malformed
    else .error .malformed

/-- The fault of a value that is not of the expected kind. -/
def refuse {α : Type} (expected : String) (input : List Char) : Except Fault α := do
  let kind ← found input
  .error (.mismatch (.wrongKind kind expected))

/-- A string. -/
def readString : Reader String := fun _ input =>
  match skipBlanks input with
  | '"' :: rest => readText rest
  | start => refuse "a string" start

/-- A natural number of at most thirty-two bits. -/
def readUInt32 : Reader UInt32 := fun _ input =>
  match skipBlanks input with
  | [] => .error .ended
  | first :: rest =>
    if first = '-' || isDigit first then do
      match ← readNumber (first :: rest) with
      | (.integer value, rest) =>
        if 0 ≤ value && value < UInt32.size then .ok (value.toNat.toUInt32, rest)
        else .error (.mismatch (.outOfRange value "u32"))
      | (.real value, _) => .error (.mismatch (.wrongKind (.real value) "u32"))
      | _ => .error .malformed
    else refuse "u32" (first :: rest)

/-- A list of anything. -/
def readList {α : Type} (item : Reader α) : Reader (List α) := fun depth input =>
  match skipBlanks input with
  | '[' :: rest =>
    match depth with
    | 0 => .error .malformed
    | depth + 1 => readItems (item depth) (rest.length + 1) true rest
  | start => refuse "a sequence" start

/-- Something, or `null` for nothing. -/
def readOptional {α : Type} (value : Reader α) : Reader (Option α) := fun depth input =>
  match skipBlanks input with
  | 'n' :: rest => do
    let rest ← passWord ['u', 'l', 'l'] rest
    .ok (none, rest)
  | start => do
    let (value, rest) ← value depth start
    .ok (some value, rest)

/-- A field of a record under construction. -/
structure Field (α : Type) where
  name : String
  /-- Whether the record is incomplete without the field. -/
  required : Bool
  /-- Reads the field into the record. -/
  read : α → Reader α

/-- A kind of record: its fields in order, and the record in which none is set yet. -/
structure Record (α : Type) where
  title : String
  fields : List (Field α)
  blank : α

/-- A field whose value is put into the record by `set`. -/
def Field.putting {α β : Type} (required : Bool) (name : String) (value : Reader β)
    (set : α → β → α) : Field α where
  name := name
  required := required
  read record depth input := do
    let (value, rest) ← value depth input
    .ok (set record value, rest)

/-- A field that must be there. -/
def Field.mandatory {α β : Type} : String → Reader β → (α → β → α) → Field α :=
  Field.putting true

/-- A field that keeps its blank value when it is left out. -/
def Field.optional {α β : Type} : String → Reader β → (α → β → α) → Field α :=
  Field.putting false

/-- How the record is called in faults about its length. -/
def Record.sized {α : Type} (record : Record α) : String :=
  let plural := if record.fields.length = 1 then "" else "s"
  record.title ++ " with " ++ toString record.fields.length ++ " element" ++ plural

/-- The fields of a record from the items of a list; `index` counts the items so far. Fields at the
end may be left out if the record is complete without them. -/
def Record.readPositions {α : Type} (record : Record α) (depth : Nat) :
    (index : Nat) → List (Field α) → α → List Char → Except Fault (α × List Char)
  | _, [], draft, input => do
    let rest ← closeList input
    .ok (draft, rest)
  | index, field :: fields, draft, input => do
    match ← nextItem (index == 0) input with
    | some start =>
      let (draft, rest) ← field.read draft depth start
      record.readPositions depth (index + 1) fields draft rest
    | none =>
      if field.required then .error (.mismatch (.wrongLength index record.sized))
      else record.readPositions depth index fields draft input

/-- The member of an object that is called `name`: a field of the record that has not been read
yet, or anything, passed over. The state is the record so far with the names already met. -/
def Record.readMember {α : Type} (record : Record α) (depth : Nat) (state : α × List String)
    (name : String) (input : List Char) : Except Fault ((α × List String) × List Char) := do
  match record.fields.find? (·.name == name) with
  | some field =>
    if state.2.contains name then .error (.mismatch (.repeatedField name))
    else
      let (draft, rest) ← field.read state.1 depth (← passColon input)
      .ok ((draft, name :: state.2), rest)
  | none =>
    let rest ← passValue (← passColon input)
    .ok (state, rest)

/-- The first required field whose name was not met. -/
def Record.missing? {α : Type} (record : Record α) (met : List String) : Option String :=
  (record.fields.find? fun field => field.required && !met.contains field.name).map (·.name)

/-- The fields of a record from the members of an object. -/
def Record.readMembers {α : Type} (record : Record α) (depth : Nat) (input : List Char) :
    Except Fault (α × List Char) := do
  let ((value, met), rest) ←
    foldMembers readText (record.readMember depth) (input.length + 1) true (record.blank, []) input
  match record.missing? met with
  | some name => .error (.mismatch (.missingField name))
  | none => .ok (value, rest)

/-- A record, written as an object or as a list. -/
def Record.read {α : Type} (record : Record α) : Reader α := fun depth input =>
  match skipBlanks input with
  | '[' :: rest =>
    match depth with
    | 0 => .error .malformed
    | depth + 1 => record.readPositions depth 0 record.fields record.blank rest
  | '{' :: rest =>
    match depth with
    | 0 => .error .malformed
    | depth + 1 => record.readMembers depth rest
  | start => refuse record.title start

end Midend.Json
