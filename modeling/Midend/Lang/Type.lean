import Midend.Decimal.Binary64

/-!
# Types, literals and positions

The small data of a Bril program: the types of values, the literals of constants, places in a
source file, and the parameters of functions.
-/

namespace Midend.Lang

/-- `Type` — the type of a value. -/
inductive Ty
  | int
  | bool
  | float
  | char
  /-- A pointer to values of another type. -/
  | ptr (target : Ty)
deriving DecidableEq, Hashable, Repr, Inhabited

/-- The literal of a constant. It need not be of the constant's declared type. -/
inductive Literal
  | int (value : Int64)
  | bool (value : Bool)
  | float (value : Binary64)
  | char (value : Char)
deriving DecidableEq, Repr, Inhabited

/-- Equal literals have equal hashes. -/
instance : Hashable Literal where
  hash
    | .int value => mixHash 0 (hash value)
    | .bool value => mixHash 1 (hash value)
    | .float value => mixHash 2 (hash value)
    | .char value => mixHash 3 (hash value.toNat)

/-- Equality of literals, of floating-point numbers as machine numbers. -/
def Literal.equals : Literal → Literal → Bool
  | int one, int other => one == other
  | bool one, bool other => one == other
  | float one, float other => one.equals other
  | char one, char other => one == other
  | _, _ => false

/-- A place in a source file. -/
structure Position where
  row : UInt32
  col : UInt32
deriving DecidableEq, Hashable, Repr, Inhabited

/-- `Argument` — a parameter of a function. -/
structure Parameter where
  name : String
  ty : Ty
deriving DecidableEq, Repr, Inhabited

end Midend.Lang
