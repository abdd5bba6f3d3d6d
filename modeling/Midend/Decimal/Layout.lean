import Midend.Decimal.Shortest

/-!
# Layouts of decimal numbers

A layout fixes what the shortest digits leave open: which numbers are written positionally, what
marks a whole number, and how ties between digits go. The two layouts of this library are records
of the same kind, one for canonical program text and one for JSON.
-/

namespace Midend.Decimal

/-- How a floating-point number is written out. -/
structure Layout where
  /-- Choice between two equally near digit strings. -/
  tie : Tie
  /-- Scientific exponents `low ≤ e < high` are written positionally, the others with an `e`;
  without a window all are positional. -/
  window : Option (Int × Int)
  /-- Follows a whole number written positionally. -/
  wholeMark : String

/-- Canonical program text: no exponent ever, and nothing after a whole number. -/
def Layout.text : Layout := ⟨.up, none, ""⟩

/-- JSON: an exponent below `1e-5` and from `1e16` on, and `.0` after a whole number. -/
def Layout.json : Layout := ⟨.even, some (-5, 16), ".0"⟩

/-- Whether numbers of a scientific exponent are written without an `e`. -/
def Layout.isPositional (layout : Layout) (exponent : Int) : Bool :=
  match layout.window with
  | none => true
  | some (low, high) => low ≤ exponent && exponent < high

/-- A run of zeros. -/
def zeros (count : Nat) : String :=
  String.ofList (List.replicate count '0')

/-- Digits with the decimal point put where the scientific exponent says. -/
def Layout.positional (layout : Layout) (digits : List Char) (exponent : Int) : String :=
  let count : Int := digits.length
  if exponent ≥ count - 1 then
    String.ofList digits ++ zeros (exponent - count + 1).toNat ++ layout.wholeMark
  else if exponent ≥ 0 then
    let whole := (exponent + 1).toNat
    String.ofList (digits.take whole) ++ "." ++ String.ofList (digits.drop whole)
  else
    "0." ++ zeros (-exponent - 1).toNat ++ String.ofList digits

/-- One digit, the others behind a point, and the exponent with its sign. -/
def scientific (digits : List Char) (exponent : Int) : String :=
  let tail := if digits.length > 1 then "." ++ String.ofList digits.tail else ""
  let sign := if exponent < 0 then "-" else "+"
  String.ofList (digits.take 1) ++ tail ++ "e" ++ sign ++ toString exponent.natAbs

/-- The text of a positive decimal. -/
def Layout.magnitude (layout : Layout) (decimal : Decimal) : String :=
  let digits := Nat.toDigits 10 decimal.digits
  let exponent := decimal.scale + digits.length - 1
  if layout.isPositional exponent then layout.positional digits exponent
  else scientific digits exponent

/-- The text of a finite number. -/
def Layout.write (layout : Layout) (number : Binary64) : String :=
  let sign := if number.isNegative then "-" else ""
  if number.significand = 0 then sign ++ "0" ++ layout.wholeMark
  else sign ++ layout.magnitude (shortest layout.tie number)

/-- The text of any number in canonical program text. -/
def canonical (number : Binary64) : String :=
  if number.isNaN then "NaN"
  else if number.isFinite then Layout.text.write number
  else if number.isNegative then "-inf" else "inf"

end Midend.Decimal
