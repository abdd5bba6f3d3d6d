import Midend.Decimal.Layout
import Midend.Text.Quoted

/-!
# Faults of JSON input

A text fails to be read for one of three reasons: it is not JSON, it stops inside a value, or it is
JSON of another shape than the one asked for. The third kind says what was met and what was
expected; its wording is `Mismatch.message`.
-/

namespace Midend.Json

/-- What was met where something else was expected. -/
inductive Found
  | null
  | boolean (value : Bool)
  | integer (value : Int)
  | real (value : Binary64)
  | text (value : String)
  | list
  | object
  /-- A bare name where the name needs a value of its own. -/
  | bareName
deriving DecidableEq, Repr

/-- The words for what was met. -/
def Found.describe : Found → String
  | null => "null"
  | boolean value => s!"boolean `{value}`"
  | integer value => s!"integer `{value}`"
  | real value => "floating point `" ++ Decimal.Layout.json.write value ++ "`"
  | text value => "string " ++ Text.quoted value
  | list => "sequence"
  | object => "map"
  | bareName => "unit variant"

/-- A way for well-formed JSON to have the wrong shape. -/
inductive Mismatch
  | missingField (name : String)
  | repeatedField (name : String)
  | wrongKind (found : Found) (expected : String)
  | outOfRange (value : Int) (expected : String)
  | wrongLength (length : Nat) (expected : String)
  | unknownName (name : String) (known : List String)
  /-- None of the forms of the thing fits. -/
  | unfit (thing : String)
deriving DecidableEq, Repr

/-- The wording of a mismatch. -/
def Mismatch.message : Mismatch → String
  | missingField name => s!"missing field `{name}`"
  | repeatedField name => s!"duplicate field `{name}`"
  | wrongKind found expected => "invalid type: " ++ found.describe ++ ", expected " ++ expected
  | outOfRange value expected => s!"invalid value: integer `{value}`, expected {expected}"
  | wrongLength length expected => s!"invalid length {length}, expected {expected}"
  | unknownName name known =>
    s!"unknown variant `{name}`, expected one of "
      ++ ", ".intercalate (known.map fun other => s!"`{other}`")
  | unfit thing => "data did not match any variant of untagged enum " ++ thing

/-- Why a text was not read. -/
inductive Fault
  /-- The text is not JSON. -/
  | malformed
  /-- The text stops inside a value. -/
  | ended
  | mismatch (cause : Mismatch)
deriving DecidableEq, Repr

end Midend.Json
