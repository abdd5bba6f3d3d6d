/-!
# Binary64 numbers

A floating-point literal is kept as its sixty-four bits. The decoding below reads the bits as a sign
and a natural number scaled by a power of two, which is what decimal printing works on. Machines
compare otherwise than by bits: the two zeros are equal, and what is no number is unequal even to
itself.
-/

namespace Midend

/-- A double-precision number, held by its bits. -/
structure Binary64 where
  /-- Sign, eleven exponent bits and fifty-two fraction bits, from the top. -/
  bits : UInt64
deriving DecidableEq, Hashable, Repr, Inhabited

namespace Binary64

/-- The datum of a machine number. -/
def ofFloat (number : Float) : Binary64 :=
  ⟨number.toBits⟩

/-- The sign bit; the negative zero has it too. -/
def isNegative (number : Binary64) : Bool :=
  number.bits >>> 63 == 1

/-- The eleven exponent bits. -/
def biasedExponent (number : Binary64) : Nat :=
  (number.bits >>> 52 &&& 0x7ff).toNat

/-- The fifty-two stored fraction bits. -/
def fraction (number : Binary64) : Nat :=
  (number.bits &&& 0xfffffffffffff).toNat

/-- The natural number that `exponent` scales; the leading bit is implicit except for subnormals. -/
def significand (number : Binary64) : Nat :=
  if number.biasedExponent = 0 then number.fraction else number.fraction + 0x10000000000000

/-- The magnitude is `significand * 2 ^ exponent`. -/
def exponent (number : Binary64) : Int :=
  (max 1 number.biasedExponent : Nat) - 1075

/-- The neighbour below is half as far as the neighbour above: the significand is a power of two
that is not the smallest of its kind. -/
def hasNarrowLowerGap (number : Binary64) : Bool :=
  number.fraction == 0 && number.biasedExponent > 1

/-- A number that is neither infinite nor no number at all. -/
def isFinite (number : Binary64) : Bool :=
  number.biasedExponent != 0x7ff

/-- The bits that stand for no number. -/
def isNaN (number : Binary64) : Bool :=
  number.biasedExponent == 0x7ff && number.fraction != 0

/-- Equality as machines compare. -/
def equals (one other : Binary64) : Bool :=
  !one.isNaN && !other.isNaN && (one == other || one.significand == 0 && other.significand == 0)

end Binary64

end Midend
