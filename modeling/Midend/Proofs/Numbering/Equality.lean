import Midend.Numbering.Table
import Midend.Proofs.Decimal.Shortest

/-!
# Equal numbers, literals and expressions

Expressions that are equal as machines compare them are the same, the constants of the two zeros
apart. Every expression equals itself but a constant that is no number.
-/

namespace Midend

open Lang

/-- The zero of either sign. -/
def Binary64.zero (isNegative : Bool) : Binary64 :=
  ⟨if isNegative then 0x8000000000000000 else 0⟩

/-- What is beyond all numbers, on either side. -/
def Binary64.infinity (isNegative : Bool) : Binary64 :=
  ⟨if isNegative then 0xfff0000000000000 else 0x7ff0000000000000⟩

/-- What a machine answers where there is no number to answer with. -/
def Binary64.quietNaN : Binary64 :=
  ⟨0x7ff8000000000000⟩

/-- A literal that is no number although its type says so. -/
def Lang.Literal.isNaN : Literal → Bool
  | float value => value.isNaN
  | int _ | bool _ | char _ => false

namespace Binary64

/-- A number whose significand is zero is one of the two zeros. -/
theorem eq_zero_of_significand {number : Binary64} (zero : number.significand = 0) :
    number = .zero number.isNegative := by
  have parts : ∀ sign, (Binary64.zero sign).isNegative = sign ∧
      (Binary64.zero sign).biasedExponent = 0 ∧ (Binary64.zero sign).fraction = 0 := by decide
  obtain ⟨sign, exponent, fraction⟩ := parts number.isNegative
  unfold significand at zero
  split at zero
  next lowest =>
    exact ext_of_parts sign.symm (lowest.trans exponent.symm) (zero.trans fraction.symm)
  next => omega

/-- What is finite is a number. -/
theorem isNaN_of_isFinite {number : Binary64} (finite : number.isFinite = true) :
    number.isNaN = false := by
  rw [isFinite, bne_iff_ne] at finite
  simp [isNaN, finite]

/-- Every number equals itself. -/
theorem equals_self (number : Binary64) : number.equals number = !number.isNaN := by
  simp [equals]

/-- Machine numbers that are equal are the same or both zero. -/
theorem eq_of_equals {one other : Binary64} (same : one.equals other = true) :
    one = other ∨ ∃ sign sign', one = .zero sign ∧ other = .zero sign' := by
  simp only [equals, Bool.and_eq_true, Bool.or_eq_true, beq_iff_eq] at same
  rcases same.2 with same | ⟨zero, zero'⟩
  · exact .inl same
  · exact .inr ⟨_, _, eq_zero_of_significand zero, eq_zero_of_significand zero'⟩

end Binary64

/-- Every literal equals itself but one that is no number. -/
theorem Lang.Literal.equals_self (literal : Literal) : literal.equals literal = !literal.isNaN := by
  cases literal with
  | float value => exact value.equals_self
  | int | bool | char => simp [equals, isNaN]

/-- Literals that are equal are the same, or constants of both zeros. -/
theorem Lang.Literal.eq_of_equals {one other : Literal} (same : one.equals other = true) :
    one = other ∨
      ∃ sign sign', one = .float (.zero sign) ∧ other = .float (.zero sign') := by
  cases one <;> cases other <;> simp only [equals, beq_iff_eq, Bool.false_eq_true] at same
  case float.float =>
    rcases Binary64.eq_of_equals same with rfl | ⟨sign, sign', rfl, rfl⟩
    · exact .inl rfl
    · exact .inr ⟨sign, sign', rfl, rfl⟩
  all_goals exact .inl (by rw [same])

namespace Expr

/-- A constant equals itself if its literal does. -/
theorem equals_self_constant (literal : Literal) :
    (Expr.constant literal).equals (.constant literal) = !literal.isNaN :=
  literal.equals_self

/-- An operation on numbered operands equals itself. -/
@[simp] theorem equals_self_apply (op : ValueOp) (operands : List Nat) :
    (Expr.apply op operands).equals (.apply op operands) = true := by
  simp [equals]

/-- An unknown value equals itself. -/
@[simp] theorem equals_self_unknown (number : Nat) :
    (Expr.unknown number).equals (.unknown number) = true := by
  simp [equals]

/-- Expressions that are equal are the same, or constants of both zeros. -/
theorem eq_of_equals {one other : Expr} (same : one.equals other = true) :
    one = other ∨
      ∃ sign sign', one = .constant (.float (.zero sign)) ∧
        other = .constant (.float (.zero sign')) := by
  cases one <;> cases other <;>
    simp only [equals, Bool.and_eq_true, beq_iff_eq, Bool.false_eq_true] at same
  case constant.constant =>
    rcases Literal.eq_of_equals same with rfl | ⟨sign, sign', rfl, rfl⟩
    · exact .inl rfl
    · exact .inr ⟨sign, sign', rfl, rfl⟩
  case unknown.unknown => exact .inl (by rw [same])
  case apply.apply => exact .inl (by rw [same.1, same.2])

/-- What equals an expression is equal to itself. -/
theorem equals_self_of_equals {one other : Expr} (same : one.equals other = true) :
    other.equals other = true := by
  rcases eq_of_equals same with rfl | ⟨-, sign', -, rfl⟩
  · exact same
  · cases sign' <;> decide

end Expr

end Midend
