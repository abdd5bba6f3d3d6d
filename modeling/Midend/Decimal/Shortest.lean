import Midend.Decimal.Binary64

/-!
# Shortest decimals

Every binary64 number owns an interval of reals that round to it. `shortest` picks the decimal of
fewest digits inside that interval, and of those the one nearest to the number. Grids of one, two,
three and more digits are tried in turn; on each only the two neighbours of the number matter,
because a grid that meets the interval at all meets it at one of those. All arithmetic is exact.
-/

namespace Midend

/-- The number `digits * 10 ^ scale`. -/
structure Decimal where
  digits : Nat
  scale : Int
deriving DecidableEq, Repr

namespace Decimal

/-- Which of two equally near decimals is taken. -/
inductive Tie
  /-- The one whose last digit is even. -/
  | even
  /-- The larger one. -/
  | up
deriving DecidableEq, Repr

/-- A positive number between the ends of the interval that rounds to it, all three counted in
units of `10 ^ scale`. -/
structure Interval where
  low : Nat
  value : Nat
  high : Nat
  scale : Int
  /-- Whether the ends themselves round to the number. -/
  closed : Bool

/-- The interval of a nonzero number; a quarter of the spacing is the common binary unit. -/
def Interval.ofBinary64 (number : Binary64) : Interval :=
  let value := 4 * number.significand
  let low := value - if number.hasNarrowLowerGap then 1 else 2
  let unit := number.exponent - 2
  let factor := Nat.pow (if unit < 0 then 5 else 2) unit.natAbs
  { low := low * factor
    value := value * factor
    high := (value + 2) * factor
    scale := min unit 0
    closed := number.significand % 2 == 0 }

/-- Whether a point, in the units of the interval, rounds to the number. -/
def Interval.admits (interval : Interval) (point : Nat) : Bool :=
  if interval.closed then interval.low ≤ point && point ≤ interval.high
  else interval.low < point && point < interval.high

/-- The admitted multiple of `grid` nearest to the value, as a multiplier. -/
def Interval.onGrid (interval : Interval) (tie : Tie) (grid : Nat) : Option Nat :=
  let below := interval.value / grid
  let above := below + 1
  let below? := interval.admits (below * grid)
  let above? := interval.admits (above * grid)
  let short := interval.value - below * grid
  let excess := above * grid - interval.value
  let preferAbove :=
    excess < short || excess == short && (tie == .up || below % 2 == 1)
  if below? && above? then some (if preferAbove then above else below)
  else if below? then some below
  else if above? then some above
  else none

/-- Tries the grids of `grid`, a tenth of it, and so on, for at most `tries` grids. -/
def Interval.search (interval : Interval) (tie : Tie) (place : Nat) : Nat → Decimal
  | 0 => ⟨interval.value, interval.scale⟩
  | tries + 1 =>
    match interval.onGrid tie (10 ^ place) with
    | some multiple => ⟨multiple, interval.scale + place⟩
    | none => interval.search tie (place - 1) tries

/-- Moves trailing zeros into the scale; `fuel` bounds their number. -/
def trim : Nat → Decimal → Decimal
  | 0, decimal => decimal
  | fuel + 1, decimal =>
    if decimal.digits ≠ 0 && decimal.digits % 10 == 0 then
      trim fuel ⟨decimal.digits / 10, decimal.scale + 1⟩
    else decimal

/-- The shortest decimal that reads back as a nonzero number, nearest to it among those. Seventeen
digits always suffice. -/
def shortest (tie : Tie) (number : Binary64) : Decimal :=
  let interval := Interval.ofBinary64 number
  let width := (Nat.toDigits 10 interval.value).length
  (interval.search tie (width - 1) 17).trim 17

end Decimal

end Midend
