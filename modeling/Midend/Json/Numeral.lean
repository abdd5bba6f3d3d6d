import Midend.Json.Fault
import Midend.Json.Value

/-!
# Numbers in JSON

A number is read in two steps. `readNumeral` takes its letters apart into sign, whole digits,
fraction digits and exponent; `Numeral.value` evaluates them. An integer that fits sixty-four bits
stays an integer. Any other number becomes a binary64 number by one multiplication or division of
its leading digits by a power of ten, which is not always the nearest number.
-/

namespace Midend.Json

/-- A decimal digit. -/
def isDigit (character : Char) : Bool :=
  '0' ≤ character && character ≤ '9'

/-- The value of a decimal digit. -/
def digitValue (character : Char) : Nat :=
  character.toNat - '0'.toNat

/-- The number written by decimal digits. -/
def digitsValue (digits : List Char) : Nat :=
  digits.foldl (fun value digit => value * 10 + digitValue digit) 0

/-- The letters of a number, taken apart. -/
structure Numeral where
  isNegative : Bool
  /-- Digits before the point. -/
  whole : List Char
  /-- Digits after the point; none when there is no point. -/
  fraction : List Char
  /-- Whether the exponent is negative, and its digits. -/
  exponent : Option (Bool × List Char)
deriving DecidableEq, Repr

/-- The whole digits of a number: a lone zero, or digits of which the first is no zero. -/
def readWhole : List Char → Except Fault (List Char × List Char)
  | [] => .error .ended
  | first :: rest =>
    if first = '0' then
      if (rest.head?.map isDigit).getD false then .error .malformed else .ok (['0'], rest)
    else if isDigit first then .ok (first :: rest.takeWhile isDigit, rest.dropWhile isDigit)
    else .error .malformed

/-- One digit or more. -/
def readDigits (input : List Char) : Except Fault (List Char × List Char) :=
  match input with
  | [] => .error .ended
  | first :: _ =>
    if isDigit first then .ok (input.takeWhile isDigit, input.dropWhile isDigit)
    else .error .malformed

/-- The digits after a point, if a point follows. -/
def readFraction : List Char → Except Fault (List Char × List Char)
  | '.' :: rest => readDigits rest
  | input => .ok ([], input)

/-- The sign of an exponent, which may be left out. -/
def readSign : List Char → Bool × List Char
  | '-' :: rest => (true, rest)
  | '+' :: rest => (false, rest)
  | input => (false, input)

/-- The exponent, if its letter follows. -/
def readExponent : List Char → Except Fault (Option (Bool × List Char) × List Char)
  | letter :: rest =>
    if letter = 'e' || letter = 'E' then do
      let (isNegative, rest) := readSign rest
      let (digits, rest) ← readDigits rest
      .ok (some (isNegative, digits), rest)
    else .ok (none, letter :: rest)
  | [] => .ok (none, [])

/-- The letters of a number whose sign has been read. -/
def readUnsigned (isNegative : Bool) (input : List Char) : Except Fault (Numeral × List Char) := do
  let (whole, rest) ← readWhole input
  let (fraction, rest) ← readFraction rest
  let (exponent, rest) ← readExponent rest
  .ok (⟨isNegative, whole, fraction, exponent⟩, rest)

/-- The letters of a number. -/
def readNumeral : List Char → Except Fault (Numeral × List Char)
  | '-' :: rest => readUnsigned true rest
  | input => readUnsigned false input

/-- The largest significand: what sixty-four bits hold. -/
def significandLimit : Nat := UInt64.size - 1

/-- Takes whole digits into the significand while it fits; from the first digit that does not, each
digit raises the exponent instead. -/
def takeWhole (significand : Nat) : List Char → Nat × Nat
  | [] => (significand, 0)
  | digit :: rest =>
    let longer := significand * 10 + digitValue digit
    if longer ≤ significandLimit then takeWhole longer rest
    else (significand, rest.length + 1)

/-- Takes fraction digits into the significand while it fits, and counts them; the others change
nothing. -/
def takeFraction (significand : Nat) : List Char → Nat × Nat
  | [] => (significand, 0)
  | digit :: rest =>
    let longer := significand * 10 + digitValue digit
    if longer ≤ significandLimit then
      let (significand, count) := takeFraction longer rest
      (significand, count + 1)
    else (significand, 0)

/-- The binary64 number nearest to `10 ^ power`, for powers up to 308. -/
def powerOfTen (power : Nat) : Float :=
  Float.ofScientific 1 false power

/-- A number times a power of ten. Powers beyond 308 are applied in parts, except that a positive
one is too large for any number but zero. -/
def scaleByTen (number : Float) (exponent : Int) : Except Fault Float :=
  if exponent.natAbs ≤ 308 then
    if exponent < 0 then .ok (number / powerOfTen exponent.natAbs)
    else
      let scaled := number * powerOfTen exponent.natAbs
      if scaled.isInf then .error .malformed else .ok scaled
  else if number == 0 then .ok number
  else if 0 ≤ exponent then .error .malformed
  else scaleByTen (number / powerOfTen 308) (exponent + 308)
termination_by exponent.natAbs
decreasing_by omega

/-- A binary64 number with a sign in front. -/
def signed (isNegative : Bool) (number : Float) : Value :=
  .real (.ofFloat (if isNegative then -number else number))

/-- The exponent digits count up to this value. -/
def exponentLimit : Nat := 0x7fffffff

/-- The significand scaled by the exponent as written, moved by `shift` places. An exponent beyond
its limit makes the number zero, unless it is positive and the significand is not zero. -/
def evaluate (isNegative : Bool) (significand : Nat) (shift : Int)
    (exponent : Option (Bool × List Char)) : Except Fault Value :=
  let number := significand.toUInt64.toFloat
  match exponent with
  | none => return signed isNegative (← scaleByTen number shift)
  | some (down, digits) =>
    let power := digitsValue digits
    if power > exponentLimit then
      if significand ≠ 0 && !down then .error .malformed else .ok (signed isNegative 0)
    else
      let power : Int := if down then -power else power
      return signed isNegative (← scaleByTen number (shift + power))

/-- The value of a number without fraction and exponent whose digits fit the significand. Zero with
a sign and negative integers of more than sixty-four bits are floating-point numbers. -/
def integerValue (isNegative : Bool) (significand : Nat) : Value :=
  if !isNegative then .integer significand
  else if significand = 0 || significand > 0x8000000000000000 then
    signed true significand.toUInt64.toFloat
  else .integer (-significand)

/-- The value of a number. -/
def Numeral.value (numeral : Numeral) : Except Fault Value :=
  let (significand, dropped) := takeWhole 0 numeral.whole
  if numeral.fraction.isEmpty && numeral.exponent.isNone && dropped = 0 then
    .ok (integerValue numeral.isNegative significand)
  else
    let (significand, places) := takeFraction significand numeral.fraction
    evaluate numeral.isNegative significand (dropped - places) numeral.exponent

/-- A number and its value. -/
def readNumber (input : List Char) : Except Fault (Value × List Char) := do
  let (numeral, rest) ← readNumeral input
  let value ← numeral.value
  .ok (value, rest)

/-- Passes over a number without evaluating it; whatever is wrong with it, it is malformed. -/
def passNumber (input : List Char) : Except Fault (List Char) :=
  match readNumeral input with
  | .ok (_, rest) => .ok rest
  | .error _ => .error .malformed

end Midend.Json
