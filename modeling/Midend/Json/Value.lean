import Midend.Decimal.Binary64

/-!
# JSON values

A value as it stands in a text: members of an object keep their order and their repetitions, and a
number keeps the difference between an integer and a floating-point number.
-/

namespace Midend.Json

/-- A JSON value. -/
inductive Value
  | null
  | boolean (value : Bool)
  /-- A number without fraction or exponent, between `-2^63` and `2^64 - 1`. -/
  | integer (value : Int)
  | real (value : Binary64)
  | text (value : String)
  | list (items : List Value)
  | object (members : List (String × Value))
deriving Inhabited, Repr

end Midend.Json
