import Midend.Json.Value
import Midend.Lang.Function

/-!
# Entries from JSON values

An entry of a function body is recognised by its fields. Labels are tried first, then constants,
value operations and effect operations; the first kind that fits is taken. Each is an object that
may hold other members as well, or a list of the fields in order, from which fields at the end may
be missing if they need not be there.
-/

namespace Midend.Lang

open Json (Value)

/-- The one member of a given name: nothing if there is none, a failure if there are several. -/
def uniqueMember (members : List (String × Value)) (name : String) : Option (Option Value) :=
  match members.filter fun member => member.1 == name with
  | [] => some none
  | [(_, value)] => some (some value)
  | _ => none

/-- The values of the named fields, in the order of the names. -/
def fields? (names : List String) : Value → Option (List (Option Value))
  | .object members => names.mapM (uniqueMember members)
  | .list items =>
    if items.length ≤ names.length then
      some (items.map some ++ List.replicate (names.length - items.length) none)
    else none
  | _ => none

/-- A string. -/
def text? : Value → Option String
  | .text value => some value
  | _ => none

/-- A name, which may also be written as an object with the name for its only key and `null`. -/
def name? : Value → Option String
  | .text name => some name
  | .object [(name, .null)] => some name
  | _ => none

/-- A list of strings; one that is left out is empty. -/
def texts? : Option Value → Option (List String)
  | none => some []
  | some (.list items) => items.mapM text?
  | some _ => none

/-- A natural number of at most thirty-two bits. -/
def uint32? : Value → Option UInt32
  | .integer value => if 0 ≤ value && value < UInt32.size then some value.toNat.toUInt32 else none
  | _ => none

/-- The plain type of a given name. -/
def plainTy? : String → Option Ty
  | "int" => some .int
  | "bool" => some .bool
  | "float" => some .float
  | "char" => some .char
  | _ => none

/-- A type. -/
def ty? : Value → Option Ty
  | .text name => plainTy? name
  | .object [(name, value)] =>
    if name = "ptr" then (ty? value).map .ptr
    else
      match value with
      | .null => plainTy? name
      | _ => none
  | _ => none

/-- A literal. An integer beyond sixty-four bits with sign is a floating-point number. -/
def literal? : Value → Option Literal
  | .integer value =>
    if Int64.minValue.toInt ≤ value && value ≤ Int64.maxValue.toInt then
      some (.int (Int64.ofInt value))
    else some (.float (.ofFloat value.toNat.toUInt64.toFloat))
  | .boolean value => some (.bool value)
  | .real value => some (.float value)
  | .text value =>
    match value.toList with
    | [character] => some (.char character)
    | _ => none
  | _ => none

/-- A position that is there. -/
def position? (value : Value) : Option Position := do
  match ← fields? ["row", "col"] value with
  | [some row, some col] => return ⟨← uint32? row, ← uint32? col⟩
  | _ => none

/-- A position that may be left out or be `null`. -/
def pos? : Option Value → Option (Option Position)
  | none | some .null => some none
  | some value => (position? value).map some

/-- A label. -/
def label? (value : Value) : Option Entry := do
  match ← fields? ["label", "pos"] value with
  | [some name, pos] => return .label (← text? name) (← pos? pos)
  | _ => none

/-- A constant. -/
def const? (value : Value) : Option Instruction := do
  match ← fields? ["op", "dest", "type", "value", "pos"] value with
  | [some op, some dest, some ty, some literal, pos] =>
    if (← name? op) = "const" then
      return .const (← text? dest) (← ty? ty) (← literal? literal) (← pos? pos)
    else none
  | _ => none

/-- A value operation. -/
def valueOp? (value : Value) : Option Instruction := do
  match ← fields? ["op", "dest", "type", "args", "funcs", "labels", "pos"] value with
  | [some op, some dest, some ty, args, funcs, labels, pos] =>
    let op ← ValueOp.ofName? (← name? op)
    let operands : Operands := ⟨← texts? args, ← texts? funcs, ← texts? labels⟩
    return .value op (← text? dest) (← ty? ty) operands (← pos? pos)
  | _ => none

/-- An effect operation. -/
def effectOp? (value : Value) : Option Instruction := do
  match ← fields? ["op", "args", "funcs", "labels", "pos"] value with
  | [some op, args, funcs, labels, pos] =>
    let op ← EffectOp.ofName? (← name? op)
    let operands : Operands := ⟨← texts? args, ← texts? funcs, ← texts? labels⟩
    return .effect op operands (← pos? pos)
  | _ => none

/-- An instruction of the first kind that fits. -/
def Instruction.decode (value : Value) : Option Instruction :=
  const? value <|> valueOp? value <|> effectOp? value

/-- An entry of the first kind that fits. -/
def Entry.decode (value : Value) : Option Entry :=
  label? value <|> (Instruction.decode value).map .instr

end Midend.Lang
