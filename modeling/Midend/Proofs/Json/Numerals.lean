import Midend.Json.Numeral
import Mathlib.Data.Nat.Digits.Defs

/-!
# Integers that are written and read back

An integer of at most sixty-four bits is written in decimal digits and read back as itself, as long
as what follows does not go on with the number.
-/

namespace Midend.Json

/-- A number that ends in front of `rest` ends there when it is read. -/
def EndsNumber (rest : List Char) : Prop :=
  ∀ next ∈ rest.head?, isDigit next = false ∧ next ≠ '.' ∧ next ≠ 'e' ∧ next ≠ 'E'

/-- The decimal digits of a number are digits. -/
theorem isDigit_of_mem_toDigits {number : Nat} {digit : Char}
    (member : digit ∈ Nat.toDigits 10 number) : isDigit digit = true :=
  Nat.isDigit_of_mem_toDigits (by decide) (by decide) member

/-- The first digit of a number that is not zero is not zero. -/
theorem head?_toDigits_ne_zero {number : Nat} (positive : 0 < number) :
    (Nat.toDigits 10 number).head? ≠ some '0' := by
  induction number using Nat.strong_induction_on with
  | h number ih =>
    rw [Nat.toDigits_eq_if (by decide)]
    split
    next small =>
      have all : ∀ digit < 10, 0 < digit → [Nat.digitChar digit].head? ≠ some '0' := by decide
      exact all number small positive
    next large =>
      obtain ⟨first, others, digits⟩ := List.exists_cons_of_ne_nil
        (Nat.toDigits_ne_nil : Nat.toDigits 10 (number / 10) ≠ [])
      have leading := ih (number / 10) (by omega) (by omega)
      rw [digits] at leading ⊢
      exact leading

/-- Digits only add to the number in front of them. -/
theorem le_ofDigitChars (digits : List Char) (number : Nat) :
    number ≤ Nat.ofDigitChars 10 digits number := by
  induction digits generalizing number with
  | nil => exact Nat.le_of_eq Nat.ofDigitChars_nil.symm
  | cons digit digits ih =>
    rw [Nat.ofDigitChars_cons]
    have more := ih (10 * number + (digit.toNat - '0'.toNat))
    omega

/-- All digits are taken into a significand that fits. -/
theorem takeWhole_eq {digits : List Char} {significand : Nat}
    (fits : Nat.ofDigitChars 10 digits significand ≤ significandLimit) :
    takeWhole significand digits = (Nat.ofDigitChars 10 digits significand, 0) := by
  induction digits generalizing significand with
  | nil => rw [takeWhole, Nat.ofDigitChars_nil]
  | cons digit digits ih =>
    rw [Nat.ofDigitChars_cons, Nat.mul_comm] at fits ⊢
    have longer := le_ofDigitChars digits (significand * 10 + (digit.toNat - '0'.toNat))
    rw [takeWhole, digitValue, if_pos (Nat.le_trans longer fits)]
    exact ih fits

/-- Digits are taken up to where they end. -/
theorem takeWhile_isDigit {digits rest : List Char}
    (areDigits : ∀ digit ∈ digits, isDigit digit = true)
    (ends : ∀ next ∈ rest.head?, isDigit next = false) :
    (digits ++ rest).takeWhile isDigit = digits ∧ (digits ++ rest).dropWhile isDigit = rest := by
  rw [List.takeWhile_append_of_pos areDigits, List.dropWhile_append_of_pos areDigits]
  cases rest with
  | nil => simp
  | cons next beyond => simp [ends next rfl]

/-- A lone zero, or digits of which the first is no zero, are read up to where they end. -/
theorem readWhole_append {digits rest : List Char} (filled : digits ≠ [])
    (areDigits : ∀ digit ∈ digits, isDigit digit = true)
    (leading : digits.head? = some '0' → digits = ['0'])
    (ends : ∀ next ∈ rest.head?, isDigit next = false) :
    readWhole (digits ++ rest) = .ok (digits, rest) := by
  obtain ⟨first, others, rfl⟩ := List.exists_cons_of_ne_nil filled
  by_cases zero : first = '0'
  · obtain ⟨rfl, rfl⟩ := List.cons_eq_cons.1 (leading (congrArg some zero))
    rw [List.singleton_append, readWhole, if_pos rfl]
    cases rest with
    | nil => rfl
    | cons next beyond => simp [ends next rfl]
  · rw [List.forall_mem_cons] at areDigits
    obtain ⟨taken, left⟩ := takeWhile_isDigit areDigits.2 ends
    rw [List.cons_append, readWhole, if_neg zero, if_pos areDigits.1, taken, left]

/-- The digits of a number are read up to where they end. -/
theorem readWhole_toDigits (number : Nat) {rest : List Char} (ends : EndsNumber rest) :
    readWhole (Nat.toDigits 10 number ++ rest) = .ok (Nat.toDigits 10 number, rest) := by
  refine readWhole_append Nat.toDigits_ne_nil (fun _ => isDigit_of_mem_toDigits) ?_
    fun next heads => (ends next heads).1
  rcases Nat.eq_zero_or_pos number with rfl | positive
  · exact fun _ => Nat.toDigits_zero 10
  · exact fun zero => absurd zero (head?_toDigits_ne_zero positive)

/-- The digits of a number are a numeral without fraction and exponent. -/
theorem readUnsigned_toDigits (isNegative : Bool) (number : Nat) {rest : List Char}
    (ends : EndsNumber rest) :
    readUnsigned isNegative (Nat.toDigits 10 number ++ rest) =
      .ok (⟨isNegative, Nat.toDigits 10 number, [], none⟩, rest) := by
  have fraction : readFraction rest = .ok ([], rest) := by
    unfold readFraction
    split
    next others => exact absurd rfl (ends '.' rfl).2.1
    next => rfl
  have exponent : readExponent rest = .ok (none, rest) := by
    cases rest with
    | nil => rfl
    | cons next others =>
      obtain ⟨-, -, small, large⟩ := ends next rfl
      simp [readExponent, small, large]
  rw [readUnsigned, readWhole_toDigits number ends]
  simp only [bind, Except.bind, fraction, exponent]

/-- A numeral of digits that fit sixty-four bits is an integer. -/
theorem value_toDigits (isNegative : Bool) {number : Nat} (fits : number ≤ significandLimit) :
    (⟨isNegative, Nat.toDigits 10 number, [], none⟩ : Numeral).value =
      .ok (integerValue isNegative number) := by
  have digits : Nat.ofDigitChars 10 (Nat.toDigits 10 number) 0 = number :=
    Nat.ofDigitChars_ten_toDigits
  have taken : takeWhole 0 (Nat.toDigits 10 number) = (number, 0) := by
    rw [takeWhole_eq (by rw [digits]; exact fits), digits]
  rw [Numeral.value]
  simp [taken]

/-- The digits of a number that is not negative. -/
theorem toList_toString_ofNat (number : Nat) :
    (toString (Int.ofNat number)).toList = Nat.toDigits 10 number :=
  Nat.toList_repr

/-- The sign and the digits of a negative number. -/
theorem toList_toString_negSucc (number : Nat) :
    (toString (Int.negSucc number)).toList = '-' :: Nat.toDigits 10 (number + 1) := by
  change ("-" ++ (number + 1).repr).toList = _
  rw [String.toList_append, Nat.toList_repr]
  rfl

/-- An integer begins with a sign or a digit. -/
theorem exists_cons_toString (value : Int) :
    ∃ first others, (toString value).toList = first :: others ∧
      (first = '-' ∨ isDigit first = true) := by
  cases value with
  | ofNat number =>
    obtain ⟨first, others, digits⟩ := List.exists_cons_of_ne_nil
      (Nat.toDigits_ne_nil : Nat.toDigits 10 number ≠ [])
    have member : first ∈ Nat.toDigits 10 number := digits ▸ List.mem_cons_self
    exact ⟨first, others, (toList_toString_ofNat number).trans digits,
      .inr (isDigit_of_mem_toDigits member)⟩
  | negSucc number => exact ⟨'-', _, toList_toString_negSucc number, .inl rfl⟩

/-- A sign is read in front of what begins with a digit only if it is there. -/
theorem readNumeral_of_isDigit {first : Char} (numeric : isDigit first = true)
    (others : List Char) :
    readNumeral (first :: others) = readUnsigned false (first :: others) := by
  unfold readNumeral
  split
  next same =>
    rw [List.cons.injEq] at same
    rw [same.1] at numeric
    cases numeric
  next => rfl

/-- The digits of a number that fits sixty-four bits are read back as the number. -/
theorem readNumber_toDigits {number : Nat} (fits : number ≤ significandLimit) {rest : List Char}
    (ends : EndsNumber rest) :
    readNumber (Nat.toDigits 10 number ++ rest) = .ok (.integer number, rest) := by
  obtain ⟨first, others, digits⟩ := List.exists_cons_of_ne_nil
    (Nat.toDigits_ne_nil : Nat.toDigits 10 number ≠ [])
  have numeric : isDigit first = true :=
    isDigit_of_mem_toDigits (digits ▸ List.mem_cons_self : first ∈ Nat.toDigits 10 number)
  have numeral : readNumeral (Nat.toDigits 10 number ++ rest) =
      .ok (⟨false, Nat.toDigits 10 number, [], none⟩, rest) := by
    rw [← readUnsigned_toDigits false number ends, digits, List.cons_append]
    exact readNumeral_of_isDigit numeric (others ++ rest)
  rw [readNumber, numeral]
  simp only [bind, Except.bind, value_toDigits false fits]
  rfl

/-- A sign and digits that fit sixty-four bits are read back as the negative number. -/
theorem readNumber_minus_toDigits {number : Nat} (fits : number + 1 ≤ 2 ^ 63) {rest : List Char}
    (ends : EndsNumber rest) :
    readNumber ('-' :: (Nat.toDigits 10 (number + 1) ++ rest)) =
      .ok (.integer (Int.negSucc number), rest) := by
  have bound : number + 1 ≤ significandLimit := by
    rw [significandLimit, UInt64.size]
    omega
  have negative : integerValue true (number + 1) = .integer (Int.negSucc number) := by
    have small : ¬(number + 1 = 0 ∨ number + 1 > 0x8000000000000000) := by omega
    simp only [integerValue, Bool.not_true, Bool.false_eq_true, if_false, Bool.or_eq_true,
      decide_eq_true_eq, small]
    rfl
  rw [readNumber, readNumeral, readUnsigned_toDigits true (number + 1) ends]
  simp only [bind, Except.bind, value_toDigits true bound, negative]

/-- An integer of at most sixty-four bits is read back as itself. -/
theorem readNumber_written {value : Int} (low : -2 ^ 63 ≤ value) (high : value < 2 ^ 64)
    {rest : List Char} (ends : EndsNumber rest) :
    readNumber ((toString value).toList ++ rest) = .ok (.integer value, rest) := by
  cases value with
  | ofNat number =>
    have fits : number ≤ significandLimit := by
      rw [Int.ofNat_eq_natCast] at high
      rw [significandLimit, UInt64.size]
      omega
    rw [toList_toString_ofNat]
    exact readNumber_toDigits fits ends
  | negSucc number =>
    rw [toList_toString_negSucc, List.cons_append]
    exact readNumber_minus_toDigits (by omega) ends

end Midend.Json
