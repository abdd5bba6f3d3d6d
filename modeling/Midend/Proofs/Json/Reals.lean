import Midend.Json.Write
import Midend.Proofs.Decimal.Shortest
import Midend.Proofs.Json.Numerals

/-!
# Real numbers that are written

The letters of a real number are a numeral with a fraction or an exponent, and what the numeral
stands for rounds to the number. The numeral is therefore told from those of all other real numbers
and from those of integers, wherever it stands.
-/

namespace Midend.Json

/-- A point and the digits behind it. -/
def fractionLetters (digits : List Char) : List Char :=
  if digits.isEmpty then [] else '.' :: digits

/-- The letter of an exponent, its sign and its digits. -/
def exponentLetters : Option (Bool × List Char) → List Char
  | none => []
  | some (down, digits) => 'e' :: (if down then '-' else '+') :: digits

namespace Numeral

/-- The letters of a numeral, without its sign. -/
def letters (numeral : Numeral) : List Char :=
  numeral.whole ++ (fractionLetters numeral.fraction ++ exponentLetters numeral.exponent)

/-- A numeral of digits, without leading zeros. -/
structure WellFormed (numeral : Numeral) : Prop where
  whole_ne_nil : numeral.whole ≠ []
  whole_isDigit : ∀ digit ∈ numeral.whole, isDigit digit = true
  leading : numeral.whole.head? = some '0' → numeral.whole = ['0']
  fraction_isDigit : ∀ digit ∈ numeral.fraction, isDigit digit = true
  exponent_isDigit : ∀ down digits, numeral.exponent = some (down, digits) →
    digits ≠ [] ∧ ∀ digit ∈ digits, isDigit digit = true

/-- The exponent of a numeral. -/
def power (numeral : Numeral) : Int :=
  match numeral.exponent with
  | none => 0
  | some (down, digits) => if down then -digitsValue digits else digitsValue digits

/-- The decimal that a numeral writes, without its sign. -/
def decimal (numeral : Numeral) : Decimal where
  digits := digitsValue (numeral.whole ++ numeral.fraction)
  scale := numeral.power - numeral.fraction.length

/-- Whether a numeral has a fraction or an exponent. -/
def IsReal (numeral : Numeral) : Prop :=
  numeral.fraction ≠ [] ∨ numeral.exponent ≠ none

end Numeral

/-- Digits are read up to where they end. -/
theorem readDigits_append {digits rest : List Char} (filled : digits ≠ [])
    (areDigits : ∀ digit ∈ digits, isDigit digit = true)
    (ends : ∀ next ∈ rest.head?, isDigit next = false) :
    readDigits (digits ++ rest) = .ok (digits, rest) := by
  obtain ⟨taken, left⟩ := takeWhile_isDigit areDigits ends
  obtain ⟨first, others, rfl⟩ := List.exists_cons_of_ne_nil filled
  have numeric := areDigits first List.mem_cons_self
  rw [List.cons_append] at taken left ⊢
  rw [readDigits, if_pos numeric, taken, left]

/-- An exponent is read up to where the number ends. -/
theorem readExponent_letters {exponent : Option (Bool × List Char)} {rest : List Char}
    (areDigits : ∀ down digits, exponent = some (down, digits) →
      digits ≠ [] ∧ ∀ digit ∈ digits, isDigit digit = true)
    (ends : EndsNumber rest) :
    readExponent (exponentLetters exponent ++ rest) = .ok (exponent, rest) := by
  cases exponent with
  | none =>
    cases rest with
    | nil => rfl
    | cons next others =>
      obtain ⟨-, -, small, large⟩ := ends next rfl
      simp [exponentLetters, readExponent, small, large]
  | some exponent =>
    obtain ⟨down, digits⟩ := exponent
    obtain ⟨filled, areDigits⟩ := areDigits down digits rfl
    have read := readDigits_append filled areDigits fun next heads => (ends next heads).1
    cases down <;> simp [exponentLetters, readExponent, readSign, read, bind, Except.bind]

/-- A fraction is read up to a character that is neither a point nor a digit. -/
theorem readFraction_letters {digits rest : List Char}
    (areDigits : ∀ digit ∈ digits, isDigit digit = true)
    (ends : ∀ next ∈ rest.head?, isDigit next = false ∧ next ≠ '.') :
    readFraction (fractionLetters digits ++ rest) = .ok (digits, rest) := by
  cases digits with
  | nil =>
    change readFraction rest = _
    unfold readFraction
    split
    next others => exact absurd rfl (ends '.' rfl).2
    next => rfl
  | cons first others =>
    exact readDigits_append (List.cons_ne_nil first others) areDigits
      fun next heads => (ends next heads).1

/-- The letters of a well-formed numeral are read back. -/
theorem Numeral.WellFormed.readUnsigned_letters {numeral : Numeral} (formed : numeral.WellFormed)
    {rest : List Char} (ends : EndsNumber rest) :
    readUnsigned numeral.isNegative (numeral.letters ++ rest) = .ok (numeral, rest) := by
  -- Neither an exponent nor what follows the number goes on with a fraction.
  have endsFraction : ∀ next ∈ (exponentLetters numeral.exponent ++ rest).head?,
      isDigit next = false ∧ next ≠ '.' := by
    cases numeral.exponent with
    | none => exact fun next heads => ⟨(ends next heads).1, (ends next heads).2.1⟩
    | some exponent =>
      rintro _ ⟨⟩
      decide
  have endsWhole : ∀ next ∈ (fractionLetters numeral.fraction ++
      (exponentLetters numeral.exponent ++ rest)).head?, isDigit next = false := by
    cases numeral.fraction with
    | nil => exact fun next heads => (endsFraction next heads).1
    | cons first others =>
      rintro _ ⟨⟩
      decide
  have whole := readWhole_append formed.whole_ne_nil formed.whole_isDigit formed.leading endsWhole
  have fraction := readFraction_letters formed.fraction_isDigit endsFraction
  have exponent := readExponent_letters formed.exponent_isDigit ends
  rw [letters, List.append_assoc, List.append_assoc, readUnsigned, whole]
  simp only [bind, Except.bind, fraction, exponent]

/-- Digits have the value that the library gives them. -/
theorem digitsValue_eq (digits : List Char) :
    digitsValue digits = Nat.ofDigitChars 10 digits 0 := by
  simp only [digitsValue, Nat.ofDigitChars, Nat.mul_comm, digitValue]

/-- Digits of a number have its value. -/
theorem digitsValue_toDigits (number : Nat) : digitsValue (Nat.toDigits 10 number) = number := by
  rw [digitsValue_eq]
  exact Nat.ofDigitChars_ten_toDigits

/-- Zeros in front of digits do not count. -/
theorem digitsValue_zeros_append (count : Nat) (digits : List Char) :
    digitsValue (List.replicate count '0' ++ digits) = digitsValue digits := by
  rw [digitsValue_eq, digitsValue_eq, Nat.ofDigitChars_append, Nat.ofDigitChars_replicate_zero,
    Nat.mul_zero]

/-- Zeros behind digits multiply by powers of ten. -/
theorem digitsValue_append_zeros (digits : List Char) (count : Nat) :
    digitsValue (digits ++ List.replicate count '0') = digitsValue digits * 10 ^ count := by
  rw [digitsValue_eq, digitsValue_eq, Nat.ofDigitChars_append, Nat.ofDigitChars_replicate_zero,
    Nat.mul_comm]

/-- A run of zeros is one of digits. -/
theorem isDigit_of_mem_zeros {count : Nat} {digit : Char}
    (member : digit ∈ List.replicate count '0') : isDigit digit = true := by
  rw [List.eq_of_mem_replicate member]
  decide

/-- A lone zero is a digit. -/
theorem isDigit_of_mem_zero (digit : Char) (member : digit ∈ ['0']) : isDigit digit = true := by
  rw [List.mem_singleton.1 member]
  decide

/-- A numeral with a fraction or an exponent that stands for a decimal, its sign aside. -/
structure Numeral.Spells (numeral : Numeral) (decimal : Decimal) : Prop where
  formed : numeral.WellFormed
  isReal : numeral.IsReal
  rational_eq : numeral.decimal.rational = decimal.rational

/-- The letters of a number with an exponent. -/
theorem toList_scientific (digits : List Char) (exponent : Int) :
    (Decimal.scientific digits exponent).toList = digits.take 1 ++ fractionLetters digits.tail ++
      exponentLetters (some (decide (exponent < 0), Nat.toDigits 10 exponent.natAbs)) := by
  have fraction : (if digits.length > 1 then "." ++ String.ofList digits.tail else "").toList =
      fractionLetters digits.tail := by
    rcases digits with _ | ⟨first, _ | ⟨second, others⟩⟩ <;> simp [fractionLetters]
  have sign : (if exponent < 0 then "-" else "+").toList =
      [if decide (exponent < 0) then '-' else '+'] := by
    by_cases down : exponent < 0 <;> simp [down]
  rw [Decimal.scientific]
  simp [fraction, sign, exponentLetters]

section Layouts

variable {decimal : Decimal} (positive : 0 < decimal.digits) (isNegative : Bool)
include positive

/-- Digits in front of others have no leading zero. -/
theorem leading_take {count : Nat} (filled : 0 < count) (others : List Char) :
    ((Nat.toDigits 10 decimal.digits).take count ++ others).head? = some '0' →
      (Nat.toDigits 10 decimal.digits).take count ++ others = ['0'] := by
  have leading := head?_toDigits_ne_zero positive
  obtain ⟨first, tail, digits⟩ := List.exists_cons_of_ne_nil
    (Nat.toDigits_ne_nil : Nat.toDigits 10 decimal.digits ≠ [])
  obtain ⟨count, rfl⟩ := Nat.exists_eq_succ_of_ne_zero (Nat.ne_of_gt filled)
  rw [digits] at leading ⊢
  exact fun zero => absurd zero leading

/-- A whole number has its zeros, and a zero behind the point. -/
theorem spells_whole (count : Nat) (scale : decimal.scale = count) :
    (⟨isNegative, Nat.toDigits 10 decimal.digits ++ List.replicate count '0', ['0'], none⟩ :
      Numeral).Spells decimal where
  formed := by
    have leading := leading_take positive
      (Nat.length_toDigits_pos : 0 < (Nat.toDigits 10 decimal.digits).length)
      (List.replicate count '0')
    rw [List.take_length] at leading
    refine ⟨by simp, fun digit member => ?_, leading, isDigit_of_mem_zero, nofun⟩
    rcases List.mem_append.1 member with digit | zero
    · exact isDigit_of_mem_toDigits digit
    · exact isDigit_of_mem_zeros zero
  isReal := .inl (List.cons_ne_nil _ _)
  rational_eq := by
    have digits := digitsValue_append_zeros (Nat.toDigits 10 decimal.digits) (count + 1)
    rw [digitsValue_toDigits, List.replicate_succ', ← List.append_assoc] at digits
    simp only [Numeral.decimal, Numeral.power, Decimal.rational, scale, digits,
      List.length_singleton]
    rw [zpow_sub₀ (by norm_num), zpow_natCast, zpow_natCast, zpow_zero]
    push_cast
    ring

/-- A number with a point among its digits. -/
theorem spells_pointed (places : Nat) (filled : 0 < places)
    (inside : places < (Nat.toDigits 10 decimal.digits).length)
    (scale : decimal.scale = places - (Nat.toDigits 10 decimal.digits).length) :
    (⟨isNegative, (Nat.toDigits 10 decimal.digits).take places,
      (Nat.toDigits 10 decimal.digits).drop places, none⟩ : Numeral).Spells decimal where
  formed := by
    have leading := leading_take positive filled []
    rw [List.append_nil] at leading
    refine ⟨?_, fun digit member => isDigit_of_mem_toDigits (List.mem_of_mem_take member), leading,
      fun digit member => isDigit_of_mem_toDigits (List.mem_of_mem_drop member), nofun⟩
    exact List.ne_nil_of_length_pos (by rw [List.length_take]; omega)
  isReal := .inl (List.ne_nil_of_length_pos (by rw [List.length_drop]; omega))
  rational_eq := by
    simp only [Numeral.decimal, Numeral.power, Decimal.rational, List.take_append_drop,
      digitsValue_toDigits, List.length_drop, scale]
    congr 2
    omega

omit positive in
/-- A number below one has zeros behind the point. -/
theorem spells_small (count : Nat)
    (scale : decimal.scale = -(count + (Nat.toDigits 10 decimal.digits).length)) :
    (⟨isNegative, ['0'], List.replicate count '0' ++ Nat.toDigits 10 decimal.digits, none⟩ :
      Numeral).Spells decimal where
  formed := by
    refine ⟨List.cons_ne_nil _ _, isDigit_of_mem_zero, fun _ => rfl, fun digit member => ?_, nofun⟩
    rcases List.mem_append.1 member with zero | digit
    · exact isDigit_of_mem_zeros zero
    · exact isDigit_of_mem_toDigits digit
  isReal := .inl (by simp)
  rational_eq := by
    have digits := digitsValue_zeros_append (count + 1) (Nat.toDigits 10 decimal.digits)
    rw [List.replicate_succ, digitsValue_toDigits] at digits
    simp only [Numeral.decimal, Numeral.power, Decimal.rational, List.singleton_append,
      ← List.cons_append, digits, List.length_append, List.length_replicate, scale]
    congr 2
    push_cast
    ring

/-- A number with an exponent has one digit in front of the point. -/
theorem spells_scientific (exponent : Int)
    (scale : decimal.scale = exponent + 1 - (Nat.toDigits 10 decimal.digits).length) :
    (⟨isNegative, (Nat.toDigits 10 decimal.digits).take 1, (Nat.toDigits 10 decimal.digits).tail,
      some (decide (exponent < 0), Nat.toDigits 10 exponent.natAbs)⟩ : Numeral).Spells
        decimal where
  formed := by
    have leading := leading_take positive Nat.one_pos []
    rw [List.append_nil] at leading
    refine ⟨by simp, fun digit member => isDigit_of_mem_toDigits (List.mem_of_mem_take member),
      leading, fun digit member => isDigit_of_mem_toDigits (List.mem_of_mem_tail member), ?_⟩
    rintro _ _ ⟨⟩
    exact ⟨Nat.toDigits_ne_nil, fun _ => isDigit_of_mem_toDigits⟩
  isReal := .inr (Option.some_ne_none _)
  rational_eq := by
    have whole : (Nat.toDigits 10 decimal.digits).take 1 ++ (Nat.toDigits 10 decimal.digits).tail =
        Nat.toDigits 10 decimal.digits := by
      rw [← List.drop_one, List.take_append_drop]
    have filled : 0 < (Nat.toDigits 10 decimal.digits).length := Nat.length_toDigits_pos
    have power : (if decide (exponent < 0) = true then -(exponent.natAbs : Int)
        else exponent.natAbs) = exponent := by
      simp only [decide_eq_true_eq]
      omega
    simp only [Numeral.decimal, Numeral.power, Decimal.rational, whole, digitsValue_toDigits,
      List.length_tail, power, scale]
    congr 2
    omega

/-- The letters of a decimal in JSON are those of a numeral that stands for it. -/
theorem exists_magnitude : ∃ numeral : Numeral, numeral.isNegative = isNegative ∧
    numeral.Spells decimal ∧
      (Decimal.Layout.json.magnitude decimal).toList = numeral.letters := by
  have filled : 0 < (Nat.toDigits 10 decimal.digits).length := Nat.length_toDigits_pos
  unfold Decimal.Layout.magnitude
  dsimp only
  generalize place : decimal.scale + (Nat.toDigits 10 decimal.digits).length - 1 = exponent
  split
  next =>
    unfold Decimal.Layout.positional
    dsimp only
    split
    next whole =>
      refine ⟨_, rfl, spells_whole positive isNegative decimal.scale.toNat (by omega), ?_⟩
      have zeros : (exponent - (Nat.toDigits 10 decimal.digits).length + 1).toNat =
          decimal.scale.toNat := by omega
      rw [zeros]
      simp [Decimal.zeros, Decimal.Layout.json, Numeral.letters, fractionLetters, exponentLetters]
    next whole =>
      split
      next pointed =>
        refine ⟨_, rfl, spells_pointed positive isNegative (exponent + 1).toNat (by omega)
          (by omega) (by omega), ?_⟩
        have behind : ¬(Nat.toDigits 10 decimal.digits).length ≤ (exponent + 1).toNat := by omega
        simp [Numeral.letters, fractionLetters, exponentLetters, behind]
      next small =>
        refine ⟨_, rfl, spells_small isNegative (-exponent - 1).toNat (by omega), ?_⟩
        simp [Decimal.zeros, Numeral.letters, fractionLetters, exponentLetters]
  next =>
    refine ⟨_, rfl, spells_scientific positive isNegative exponent (by omega), ?_⟩
    rw [toList_scientific, Numeral.letters, List.append_assoc]

end Layouts

/-- The letters of a real number in JSON, behind its sign, are those of a numeral that stands for a
point that rounds to the number. -/
theorem exists_numeral (number : Binary64) : ∃ numeral : Numeral,
    numeral.isNegative = number.isNegative ∧ numeral.WellFormed ∧ numeral.IsReal ∧
      number.Owns numeral.decimal.rational ∧
      (Decimal.Layout.json.write number).toList =
        (if number.isNegative then ['-'] else []) ++ numeral.letters := by
  have sign : (if number.isNegative = true then "-" else "").toList =
      if number.isNegative = true then ['-'] else [] := by
    split <;> rfl
  unfold Decimal.Layout.write
  dsimp only
  split
  next zero =>
    refine ⟨⟨number.isNegative, ['0'], ['0'], none⟩, rfl, ?_, .inl (List.cons_ne_nil _ _), ?_, ?_⟩
    · exact ⟨List.cons_ne_nil _ _, isDigit_of_mem_zero, fun _ => rfl, isDigit_of_mem_zero, nofun⟩
    · have nothing : (⟨number.isNegative, ['0'], ['0'], none⟩ : Numeral).decimal.rational = 0 :=
        zero_mul _
      rw [nothing]
      exact Binary64.owns_zero zero
    · rw [String.toList_append, String.toList_append, sign, List.append_assoc]
      rfl
  next nonzero =>
    have owns := Decimal.owns_shortest Decimal.Layout.json.tie number nonzero
    have positive : 0 < (Decimal.shortest Decimal.Layout.json.tie number).digits := by
      by_contra zero
      have value := owns.pos nonzero
      rw [Decimal.rational, Nat.eq_zero_of_not_pos zero, Nat.cast_zero, zero_mul] at value
      exact lt_irrefl _ value
    obtain ⟨numeral, negative, spells, letters⟩ := exists_magnitude positive number.isNegative
    refine ⟨numeral, negative, spells.formed, spells.isReal, spells.rational_eq ▸ owns, ?_⟩
    rw [String.toList_append, sign, letters]

/-- A real number in front of what ends it is read as a numeral of its sign that stands for a point
that rounds to the number. -/
theorem readNumeral_real (number : Binary64) {rest : List Char} (ends : EndsNumber rest) :
    ∃ numeral : Numeral, numeral.isNegative = number.isNegative ∧ numeral.IsReal ∧
      number.Owns numeral.decimal.rational ∧
      readNumeral ((Decimal.Layout.json.write number).toList ++ rest) = .ok (numeral, rest) := by
  obtain ⟨numeral, negative, formed, isReal, owns, letters⟩ := exists_numeral number
  refine ⟨numeral, negative, isReal, owns, ?_⟩
  have read := formed.readUnsigned_letters ends
  rw [letters, List.append_assoc]
  rw [negative] at read
  cases sign : number.isNegative with
  | true =>
    rw [sign] at read
    exact read
  | false =>
    rw [sign] at read
    obtain ⟨first, others, whole⟩ := List.exists_cons_of_ne_nil formed.whole_ne_nil
    have numeric := formed.whole_isDigit first (whole ▸ List.mem_cons_self)
    rw [Numeral.letters, whole] at read ⊢
    exact (readNumeral_of_isDigit numeric _).trans read

/-- What is written of a real number in front of what ends it says what the number is and what
follows it. -/
theorem real_append_inj {one other : Binary64} {rest rest' : List Char} (ends : EndsNumber rest)
    (ends' : EndsNumber rest')
    (same : (Decimal.Layout.json.write one).toList ++ rest =
      (Decimal.Layout.json.write other).toList ++ rest') : one = other ∧ rest = rest' := by
  obtain ⟨numeral, negative, -, owns, read⟩ := readNumeral_real one ends
  obtain ⟨numeral', negative', -, owns', read'⟩ := readNumeral_real other ends'
  rw [same, read', Except.ok.injEq, Prod.mk.injEq] at read
  obtain ⟨rfl, rfl⟩ := read
  obtain ⟨exponents, fractions⟩ := owns.magnitude_eq owns'
  exact ⟨Binary64.ext_of_parts (negative.symm.trans negative') exponents fractions, rfl⟩

/-- A real number begins with a sign or a digit. -/
theorem exists_cons_real (number : Binary64) :
    ∃ first others, (Decimal.Layout.json.write number).toList = first :: others ∧
      (first = '-' ∨ isDigit first = true) := by
  obtain ⟨numeral, -, formed, -, -, letters⟩ := exists_numeral number
  obtain ⟨first, others, whole⟩ := List.exists_cons_of_ne_nil formed.whole_ne_nil
  rw [letters, Numeral.letters, whole]
  cases number.isNegative with
  | true => exact ⟨_, _, rfl, .inl rfl⟩
  | false => exact ⟨_, _, rfl, .inr (formed.whole_isDigit first (whole ▸ List.mem_cons_self))⟩

/-- An integer is read as a numeral with neither a fraction nor an exponent. -/
theorem readNumeral_integer (value : Int) {rest : List Char} (ends : EndsNumber rest) :
    ∃ numeral : Numeral, ¬numeral.IsReal ∧
      readNumeral ((toString value).toList ++ rest) = .ok (numeral, rest) := by
  have whole (isNegative : Bool) (digits : List Char) :
      ¬(⟨isNegative, digits, [], none⟩ : Numeral).IsReal := by simp [Numeral.IsReal]
  cases value with
  | ofNat number =>
    obtain ⟨first, others, digits⟩ := List.exists_cons_of_ne_nil
      (Nat.toDigits_ne_nil : Nat.toDigits 10 number ≠ [])
    have numeric := isDigit_of_mem_toDigits (digits ▸ List.mem_cons_self : first ∈ _)
    have read := readUnsigned_toDigits false number ends
    refine ⟨_, whole false (Nat.toDigits 10 number), ?_⟩
    rw [toList_toString_ofNat]
    rw [digits, List.cons_append] at read ⊢
    exact (readNumeral_of_isDigit numeric _).trans read
  | negSucc number =>
    rw [toList_toString_negSucc]
    exact ⟨_, whole true _, readUnsigned_toDigits true (number + 1) ends⟩

/-- No integer is written as a real number is. -/
theorem integer_append_ne_real {value : Int} {number : Binary64} {rest rest' : List Char}
    (ends : EndsNumber rest) (ends' : EndsNumber rest') :
    (toString value).toList ++ rest ≠ (Decimal.Layout.json.write number).toList ++ rest' := by
  intro same
  obtain ⟨numeral, whole, read⟩ := readNumeral_integer value ends
  obtain ⟨numeral', -, isReal, -, read'⟩ := readNumeral_real number ends'
  rw [same, read', Except.ok.injEq, Prod.mk.injEq] at read
  exact whole (read.1 ▸ isReal)

end Midend.Json
