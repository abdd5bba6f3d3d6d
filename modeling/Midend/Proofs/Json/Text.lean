import Midend.Json.Scan
import Midend.Json.Write
import Mathlib.Data.List.DropRight
import Mathlib.Tactic.SplitIfs

/-!
# Strings and blanks that are written and read back

The letters between the quotes of a written string are read back as the characters of the string,
whatever follows the closing quote. Blanks in front of a token are passed over.
-/

namespace Midend.Json

/-- A character that is no blank stays in front. -/
theorem skipBlanks_cons {character : Char} (visible : isBlank character = false)
    (rest : List Char) : skipBlanks (character :: rest) = character :: rest := by
  rw [skipBlanks, List.dropWhile_cons, visible, if_neg Bool.false_ne_true]

/-- A line break and its indentation are blanks. -/
@[simp] theorem skipBlanks_newline (level : Nat) (rest : List Char) :
    skipBlanks (newline level ++ rest) = skipBlanks rest := by
  have indentation (count : Nat) :
      (List.replicate count ' ' ++ rest).dropWhile isBlank = rest.dropWhile isBlank := by
    induction count with
    | zero => rfl
    | succ count ih =>
      rw [List.replicate_succ, List.cons_append, List.dropWhile_cons, if_pos (by decide), ih]
  rw [newline, List.cons_append, skipBlanks, List.dropWhile_cons, if_pos (by decide), indentation,
    skipBlanks]

/-- A space is a blank. -/
@[simp] theorem skipBlanks_space (rest : List Char) :
    skipBlanks (' ' :: rest) = skipBlanks rest := by
  rw [skipBlanks, List.dropWhile_cons, if_pos (by decide), skipBlanks]

/-- A hexadecimal digit that is written is read back. -/
theorem hexDigit?_hexLetter {digit : Nat} (small : digit < 16) :
    hexDigit? (hexLetter digit) = some digit := by
  have all : ∀ digit < 16, hexDigit? (hexLetter digit) = some digit := by decide
  exact all digit small

/-- A control character that is written by its number is read back. -/
theorem readEscape_control {character : Char} (control : character < ' ') (rest : List Char) :
    readEscape ('u' :: '0' :: '0' :: hexLetter (character.toNat / 16) ::
      hexLetter (character.toNat % 16) :: rest) = .ok (character, rest) := by
  have small : character.toNat < 32 := control
  have high := hexDigit?_hexLetter (show character.toNat / 16 < 16 by omega)
  have low := hexDigit?_hexLetter (show character.toNat % 16 < 16 by omega)
  have zero : hexDigit? '0' = some 0 := by decide
  have number : ((0 * 16 + 0) * 16 + character.toNat / 16) * 16 + character.toNat % 16 =
      character.toNat := by omega
  have whole : readHex4 ('0' :: '0' :: hexLetter (character.toNat / 16) ::
      hexLetter (character.toNat % 16) :: rest) = .ok (character.toNat, rest) := by
    rw [readHex4, zero, high, low]
    exact congrArg Except.ok (Prod.ext number rfl)
  have below : ¬ 0xDC00 ≤ character.toNat := by omega
  have belowToo : ¬ 0xD800 ≤ character.toNat := by omega
  simp [readEscape, readUnicode, whole, bind, Except.bind, below, belowToo]

/-- A character of a string is written as itself, or as a backslash and an escape that is read back
as the character. -/
theorem escaped_cases (character : Char) :
    (escaped character = [character] ∧ character ≠ '"' ∧ character ≠ '\\' ∧ ¬character < ' ') ∨
      ∃ letters, escaped character = '\\' :: letters ∧
        ∀ rest, readEscape (letters ++ rest) = .ok (character, rest) := by
  unfold escaped
  split_ifs with quote backslash backspace formFeed lineFeed carriageReturn tab control
  · exact .inr ⟨_, rfl, fun rest => by rw [quote]; rfl⟩
  · exact .inr ⟨_, rfl, fun rest => by rw [backslash]; rfl⟩
  · exact .inr ⟨_, rfl, fun rest => by rw [backspace]; rfl⟩
  · exact .inr ⟨_, rfl, fun rest => by rw [formFeed]; rfl⟩
  · exact .inr ⟨_, rfl, fun rest => by rw [lineFeed]; rfl⟩
  · exact .inr ⟨_, rfl, fun rest => by rw [carriageReturn]; rfl⟩
  · exact .inr ⟨_, rfl, fun rest => by rw [tab]; rfl⟩
  · exact .inr ⟨_, rfl, fun rest => readEscape_control control rest⟩
  · exact .inl ⟨rfl, quote, backslash, control⟩

/-- Written characters are read back up to the closing quote, given fuel for each of them. -/
theorem readCharacters_written (characters rest : List Char) {fuel : Nat}
    (enough : characters.length < fuel) :
    readCharacters fuel (characters.flatMap escaped ++ '"' :: rest) = .ok (characters, rest) := by
  induction characters generalizing fuel with
  | nil =>
    obtain ⟨fuel, rfl⟩ := Nat.exists_eq_succ_of_ne_zero (Nat.ne_of_gt enough)
    rfl
  | cons character characters ih =>
    obtain ⟨fuel, rfl⟩ := Nat.exists_eq_succ_of_ne_zero (Nat.ne_of_gt (Nat.zero_lt_of_lt enough))
    have others := ih (Nat.lt_of_succ_lt_succ enough)
    rw [List.flatMap_cons, List.append_assoc]
    rcases escaped_cases character with ⟨same, notQuote, notBackslash, visible⟩ |
      ⟨letters, written, escape⟩
    · rw [same, List.singleton_append, Nat.succ_eq_add_one, readCharacters, if_neg notQuote,
        if_neg notBackslash, if_neg visible, others]
      rfl
    · rw [written, List.cons_append, Nat.succ_eq_add_one, readCharacters, if_neg (by decide),
        if_pos rfl, escape]
      simp only [bind, Except.bind, others]

/-- A character of a string takes at least one letter. -/
theorem length_le_flatMap_escaped (characters : List Char) :
    characters.length ≤ (characters.flatMap escaped).length := by
  induction characters with
  | nil => exact Nat.le_refl 0
  | cons character characters ih =>
    have filled : 0 < (escaped character).length := by
      rcases escaped_cases character with ⟨same, -⟩ | ⟨letters, written, -⟩
      · rw [same]
        exact Nat.one_pos
      · rw [written]
        exact Nat.succ_pos _
    rw [List.flatMap_cons, List.length_append, List.length_cons]
    omega

/-- A written string is read back behind its opening quote. -/
theorem readText_written (text : String) (rest : List Char) :
    readText (text.toList.flatMap escaped ++ '"' :: rest) = .ok (text, rest) := by
  have letters := length_le_flatMap_escaped text.toList
  have enough : text.toList.length < (text.toList.flatMap escaped ++ '"' :: rest).length := by
    rw [List.length_append, List.length_cons]
    omega
  rw [readText, readCharacters_written _ _ enough]
  simp [bind, Except.bind]

/-- A written string is a quote and what is read back behind it. -/
theorem writeText_append (text : String) (rest : List Char) :
    writeText text ++ rest = '"' :: (text.toList.flatMap escaped ++ '"' :: rest) := by
  simp [writeText]

end Midend.Json
