import Midend.Decimal.Shortest
import Mathlib.Algebra.Order.Field.Power
import Mathlib.Data.Rat.Cast.Order
import Mathlib.Tactic.Linarith
import Mathlib.Tactic.Positivity
import Mathlib.Tactic.Ring

/-!
# Shortest decimals tell numbers apart

The rationals that round to a number lie between the middles to its two neighbours, the middles
themselves included if its significand is even. The intervals of two magnitudes have no point in
common: where they touch, one of the two significands is odd. The shortest decimal of a number lies
in its interval and is therefore the shortest decimal of no other magnitude.
-/

namespace Midend

namespace Binary64

variable {number one other : Binary64}

/-- The biased exponent stands above the fraction. -/
theorem biasedExponent_eq (number : Binary64) :
    number.biasedExponent = number.bits.toNat / 2 ^ 52 % 2 ^ 11 := by
  rw [biasedExponent, UInt64.toNat_and, UInt64.toNat_shiftRight, Nat.shiftRight_eq_div_pow]
  exact Nat.and_two_pow_sub_one_eq_mod _ 11

/-- The fraction is the lowest bits. -/
theorem fraction_eq (number : Binary64) : number.fraction = number.bits.toNat % 2 ^ 52 := by
  rw [fraction, UInt64.toNat_and]
  exact Nat.and_two_pow_sub_one_eq_mod _ 52

/-- The sign is the highest bit. -/
theorem isNegative_eq (number : Binary64) :
    number.isNegative = decide (2 ^ 63 ≤ number.bits.toNat) := by
  have bound := number.bits.toNat_lt
  rw [isNegative, Bool.eq_iff_iff, beq_iff_eq, decide_eq_true_eq, ← UInt64.toNat_inj,
    UInt64.toNat_shiftRight, Nat.shiftRight_eq_div_pow]
  change number.bits.toNat / 2 ^ 63 = 1 ↔ _
  omega

/-- Numbers of the same sign, exponent and fraction are the same. -/
theorem ext_of_parts (signs : one.isNegative = other.isNegative)
    (exponents : one.biasedExponent = other.biasedExponent)
    (fractions : one.fraction = other.fraction) : one = other := by
  have bound := one.bits.toNat_lt
  have bound' := other.bits.toNat_lt
  rw [isNegative_eq, isNegative_eq, decide_eq_decide] at signs
  rw [biasedExponent_eq, biasedExponent_eq] at exponents
  rw [fraction_eq, fraction_eq] at fractions
  have same : one.bits.toNat = other.bits.toNat := by omega
  cases one
  cases other
  exact congrArg Binary64.mk (UInt64.toNat_inj.1 same)

/-- The fraction has fifty-two bits. -/
theorem fraction_lt (number : Binary64) : number.fraction < 2 ^ 52 := by
  rw [fraction_eq]
  exact Nat.mod_lt _ (by decide)

/-- How far the lower end of the interval is from the number, in quarters of the spacing. -/
def lowerGap (number : Binary64) : Nat :=
  if number.hasNarrowLowerGap then 1 else 2

/-- The lower end of the interval of a number. -/
def lowest (number : Binary64) : ℚ :=
  (4 * number.significand - number.lowerGap : Nat) * 2 ^ (number.exponent - 2)

/-- The upper end of the interval of a number. -/
def highest (number : Binary64) : ℚ :=
  (4 * number.significand + 2 : Nat) * 2 ^ (number.exponent - 2)

/-- A point of the interval that rounds to the magnitude of a number. -/
structure Owns (number : Binary64) (point : ℚ) : Prop where
  lowest_le : number.lowest ≤ point
  le_highest : point ≤ number.highest
  inside : number.significand % 2 = 1 → number.lowest < point ∧ point < number.highest

/-- Of two magnitudes, the interval of the larger one lies above that of the smaller one. If they
touch, one of the significands is odd. -/
theorem quarters_le (below : one.biasedExponent < other.biasedExponent ∨
      one.biasedExponent = other.biasedExponent ∧ one.fraction < other.fraction) :
    ∃ steps : Nat, other.exponent = one.exponent + steps ∧
      4 * one.significand + 2 ≤ (4 * other.significand - other.lowerGap) * 2 ^ steps ∧
      (4 * one.significand + 2 = (4 * other.significand - other.lowerGap) * 2 ^ steps →
        one.significand % 2 = 1 ∨ other.significand % 2 = 1) := by
  have bound := one.fraction_lt
  have bound' := other.fraction_lt
  have small : one.significand < 2 ^ 53 := by
    unfold significand
    split <;> omega
  refine ⟨max 1 other.biasedExponent - max 1 one.biasedExponent, ?_, ?_⟩
  · simp only [exponent]
    omega
  by_cases level : max 1 other.biasedExponent = max 1 one.biasedExponent
  · -- One spacing: the significands differ, and the lower gap is not narrow.
    have apart : one.significand < other.significand := by
      unfold significand
      split <;> split <;> omega
    have wide : other.lowerGap = 2 := by
      simp only [lowerGap, hasNarrowLowerGap, Bool.and_eq_true, beq_iff_eq, decide_eq_true_eq]
      rw [if_neg (by omega)]
    rw [level, Nat.sub_self, Nat.pow_zero, Nat.mul_one, wide]
    omega
  · -- The spacing above is at least twice the one below.
    have above : 1 < other.biasedExponent := by omega
    have normal : other.significand = other.fraction + 2 ^ 52 :=
      if_neg (by omega)
    have twice : 2 ^ 1 ≤ 2 ^ (max 1 other.biasedExponent - max 1 one.biasedExponent) :=
      Nat.pow_le_pow_right (by decide) (by omega)
    have scaled := Nat.mul_le_mul_left (4 * other.significand - other.lowerGap) twice
    by_cases narrow : other.fraction = 0
    · have gap : other.lowerGap = 1 := by simp [lowerGap, hasNarrowLowerGap, narrow, above]
      rw [gap] at scaled ⊢
      omega
    · have gap : other.lowerGap = 2 := by simp [lowerGap, hasNarrowLowerGap, narrow]
      rw [gap] at scaled ⊢
      omega

/-- A point of the interval of a magnitude is in the interval of no larger one. -/
theorem Owns.not_owns {point : ℚ} (owns : one.Owns point)
    (below : one.biasedExponent < other.biasedExponent ∨
      one.biasedExponent = other.biasedExponent ∧ one.fraction < other.fraction) :
    ¬other.Owns point := by
  intro owns'
  obtain ⟨steps, exponents, separate, touch⟩ := quarters_le below
  have unit : (0 : ℚ) < 2 ^ (one.exponent - 2) := by positivity
  have lowest_eq : other.lowest =
      ((4 * other.significand - other.lowerGap) * 2 ^ steps : Nat) * 2 ^ (one.exponent - 2) := by
    have shifted : other.exponent - 2 = steps + (one.exponent - 2) := by omega
    rw [lowest, shifted, zpow_add₀ two_ne_zero, zpow_natCast]
    push_cast
    ring
  have separated : one.highest ≤ other.lowest := by
    rw [lowest_eq, highest]
    exact mul_le_mul_of_nonneg_right (by exact_mod_cast separate) unit.le
  -- The point is where the intervals touch, and one of the two does not have its ends.
  have met : one.highest = other.lowest :=
    le_antisymm separated (le_trans owns'.lowest_le owns.le_highest)
  have counts : 4 * one.significand + 2 =
      (4 * other.significand - other.lowerGap) * 2 ^ steps := by
    rw [lowest_eq, highest, mul_left_inj' unit.ne'] at met
    exact_mod_cast met
  rcases touch counts with odd | odd
  · exact absurd (owns.inside odd).2 (not_lt.2 (met.trans_le owns'.lowest_le))
  · exact absurd (owns'.inside odd).1 (not_lt.2 (owns.le_highest.trans_eq met))

/-- Magnitudes that own a point in common are the same. -/
theorem Owns.magnitude_eq {point : ℚ} (owns : one.Owns point) (owns' : other.Owns point) :
    one.biasedExponent = other.biasedExponent ∧ one.fraction = other.fraction := by
  by_contra apart
  have ordered : (one.biasedExponent < other.biasedExponent ∨
        one.biasedExponent = other.biasedExponent ∧ one.fraction < other.fraction) ∨
      (other.biasedExponent < one.biasedExponent ∨
        other.biasedExponent = one.biasedExponent ∧ other.fraction < one.fraction) := by
    omega
  rcases ordered with below | below
  · exact owns.not_owns below owns'
  · exact owns'.not_owns below owns

/-- The number that is zero owns zero. -/
theorem owns_zero (zero : number.significand = 0) : number.Owns 0 where
  lowest_le := by simp [lowest, zero]
  le_highest := by
    rw [highest]
    positivity
  inside odd := by
    rw [zero] at odd
    cases odd

/-- What a number that is not zero owns is positive. -/
theorem Owns.pos {point : ℚ} (owns : number.Owns point) (nonzero : number.significand ≠ 0) :
    0 < point := by
  refine lt_of_lt_of_le ?_ owns.lowest_le
  have quarters : 0 < 4 * number.significand - number.lowerGap := by
    have gap : number.lowerGap ≤ 2 := by
      unfold lowerGap
      split <;> decide
    omega
  rw [lowest]
  exact mul_pos (by exact_mod_cast quarters) (by positivity)

end Binary64

namespace Decimal

/-- The number that a decimal stands for. -/
def rational (decimal : Decimal) : ℚ :=
  decimal.digits * 10 ^ decimal.scale

/-- Moving trailing zeros into the scale does not change the number. -/
theorem rational_trim (fuel : Nat) (decimal : Decimal) :
    (trim fuel decimal).rational = decimal.rational := by
  induction fuel generalizing decimal with
  | zero => rfl
  | succ fuel ih =>
    rw [trim]
    split
    next trailing =>
      rw [Bool.and_eq_true, beq_iff_eq] at trailing
      have shifted : decimal.digits = decimal.digits / 10 * 10 := by omega
      rw [ih, rational, rational, zpow_add₀ (by norm_num), zpow_one]
      conv_rhs => rw [shifted]
      push_cast
      ring
    next => rfl

variable {interval : Interval} {tie : Tie}

/-- What is found on a grid is admitted. -/
theorem Interval.admits_of_onGrid {grid multiple : Nat}
    (found : interval.onGrid tie grid = some multiple) :
    interval.admits (multiple * grid) = true := by
  simp only [Interval.onGrid] at found
  split at found
  next both =>
    rw [Bool.and_eq_true] at both
    rw [Option.some.injEq] at found
    rw [← found]
    split
    · exact both.2
    · exact both.1
  next =>
    split at found
    next below =>
      rw [Option.some.injEq] at found
      rw [← found]
      exact below
    next =>
      split at found
      next above =>
        rw [Option.some.injEq] at found
        rw [← found]
        exact above
      next => cases found

/-- A search takes what it finds on a grid and goes on with the next grid otherwise. -/
theorem Interval.search_succ (interval : Interval) (tie : Tie) (place tries : Nat) :
    interval.search tie place (tries + 1) =
      match interval.onGrid tie (10 ^ place) with
      | some multiple => ⟨multiple, interval.scale + place⟩
      | none => interval.search tie (place - 1) tries :=
  rfl

/-- The search ends at an admitted point. -/
theorem Interval.exists_search (interval : Interval) (tie : Tie)
    (admitted : interval.admits interval.value = true) (place tries : Nat) :
    ∃ point, interval.admits point = true ∧
      (interval.search tie place tries).rational = point * 10 ^ interval.scale := by
  induction tries generalizing place with
  | zero => exact ⟨interval.value, admitted, rfl⟩
  | succ tries ih =>
    rw [search_succ]
    cases found : interval.onGrid tie (10 ^ place) with
    | none => exact ih (place - 1)
    | some multiple =>
      refine ⟨_, admits_of_onGrid found, ?_⟩
      rw [rational, zpow_add₀ (by norm_num), zpow_natCast]
      push_cast
      ring

/-- The unit of an interval is a power of two. -/
theorem factor_mul_scale (unit : Int) :
    (Nat.pow (if unit < 0 then 5 else 2) unit.natAbs : Nat) * (10 : ℚ) ^ min unit 0 =
      2 ^ unit := by
  split
  next negative =>
    obtain ⟨places, rfl⟩ : ∃ places : Nat, unit = -places := ⟨unit.natAbs, by omega⟩
    rw [min_eq_left negative.le, Int.natAbs_neg, Int.natAbs_natCast, zpow_neg, zpow_neg,
      zpow_natCast, zpow_natCast]
    change ((5 ^ places : Nat) : ℚ) * _ = _
    have ten : (10 : ℚ) ^ places = 5 ^ places * 2 ^ places := by
      rw [← mul_pow]
      norm_num
    rw [ten, mul_inv, Nat.cast_pow, Nat.cast_ofNat]
    exact mul_inv_cancel_left₀ (by positivity) _
  next nonnegative =>
    obtain ⟨places, rfl⟩ : ∃ places : Nat, unit = places := ⟨unit.natAbs, by omega⟩
    rw [min_eq_right (by omega), zpow_zero, mul_one, Int.natAbs_natCast, zpow_natCast]
    change ((2 ^ places : Nat) : ℚ) = _
    push_cast
    rfl

/-- A number owns what its interval admits. -/
theorem owns_of_admits {number : Binary64} {point : Nat}
    (admitted : (Interval.ofBinary64 number).admits point = true) :
    number.Owns (point * 10 ^ (Interval.ofBinary64 number).scale) := by
  have unit := factor_mul_scale (number.exponent - 2)
  have scale : (0 : ℚ) < 10 ^ (Interval.ofBinary64 number).scale := by positivity
  have low : number.lowest =
      (Interval.ofBinary64 number).low * 10 ^ (Interval.ofBinary64 number).scale := by
    rw [Binary64.lowest, ← unit, ← mul_assoc, ← Nat.cast_mul]
    rfl
  have high : number.highest =
      (Interval.ofBinary64 number).high * 10 ^ (Interval.ofBinary64 number).scale := by
    rw [Binary64.highest, ← unit, ← mul_assoc, ← Nat.cast_mul]
    rfl
  have closed : (Interval.ofBinary64 number).closed = (number.significand % 2 == 0) := rfl
  unfold Interval.admits at admitted
  rw [closed] at admitted
  split at admitted
  next even =>
    rw [Bool.and_eq_true, decide_eq_true_eq, decide_eq_true_eq] at admitted
    rw [beq_iff_eq] at even
    refine ⟨?_, ?_, fun odd => by omega⟩
    · rw [low]
      exact mul_le_mul_of_nonneg_right (by exact_mod_cast admitted.1) scale.le
    · rw [high]
      exact mul_le_mul_of_nonneg_right (by exact_mod_cast admitted.2) scale.le
  next =>
    rw [Bool.and_eq_true, decide_eq_true_eq, decide_eq_true_eq] at admitted
    have above : number.lowest < point * 10 ^ (Interval.ofBinary64 number).scale := by
      rw [low]
      exact mul_lt_mul_of_pos_right (by exact_mod_cast admitted.1) scale
    have below : point * 10 ^ (Interval.ofBinary64 number).scale < number.highest := by
      rw [high]
      exact mul_lt_mul_of_pos_right (by exact_mod_cast admitted.2) scale
    exact ⟨above.le, below.le, fun _ => ⟨above, below⟩⟩

/-- The interval of a number admits the number. -/
theorem admits_value (number : Binary64) (nonzero : number.significand ≠ 0) :
    (Interval.ofBinary64 number).admits (Interval.ofBinary64 number).value = true := by
  have factor : 0 < Nat.pow (if number.exponent - 2 < 0 then 5 else 2)
      (number.exponent - 2).natAbs := by
    refine Nat.pow_pos ?_
    split <;> decide
  have low : (Interval.ofBinary64 number).low < (Interval.ofBinary64 number).value := by
    refine Nat.mul_lt_mul_of_pos_right ?_ factor
    split <;> omega
  have high : (Interval.ofBinary64 number).value < (Interval.ofBinary64 number).high :=
    Nat.mul_lt_mul_of_pos_right (by omega) factor
  unfold Interval.admits
  split <;> simp [low, high, low.le, high.le]

/-- A number that is not zero owns its shortest decimal. -/
theorem owns_shortest (tie : Tie) (number : Binary64) (nonzero : number.significand ≠ 0) :
    number.Owns (shortest tie number).rational := by
  rw [shortest]
  obtain ⟨point, admitted, same⟩ := (Interval.ofBinary64 number).exists_search tie
    (admits_value number nonzero)
    ((Nat.toDigits 10 (Interval.ofBinary64 number).value).length - 1) 17
  rw [rational_trim, same]
  exact owns_of_admits admitted

end Decimal

end Midend
