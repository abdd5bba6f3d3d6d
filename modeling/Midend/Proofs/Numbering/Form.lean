import Midend.Json.Write
import Midend.Lang.Encode
import Midend.Numbering.Simplify
import Midend.Proofs.Json.Reals
import Midend.Proofs.Json.Text
import Midend.Proofs.Lang.TextForm

/-!
# Expressions in JSON

An expression is written as an object of its kind, the name of its operation, the numbers that it
refers to, and its literal if it is a constant. The text says what the expression is: the zeros of
the two signs are written differently, and so are an integer and the real number next to it. Only
floating-point literals that are not finite all have one text, since they are written as null.
-/

namespace Midend

open Json (EndsNumber writeCompact writeCompactItems writeText)
open Lang

/-- What the operation of an expression is like. -/
inductive Kind
  | unop
  | binop
  | unknown
deriving DecidableEq, Repr

/-- The name of a kind. -/
def Kind.name : Kind → String
  | unop => "unop"
  | binop => "binop"
  | unknown => "unknown"

/-- An expression as the record that is written in JSON. -/
@[ext] structure Form where
  kind : Kind
  op : String
  refs : List Nat
  value : Option Literal
deriving DecidableEq, Repr

/-- The kind of an operation. -/
def Lang.ValueOp.kind : ValueOp → Kind
  | id | not | char2int | int2char => .unop
  | call | load | ptradd | alloc | phi | nop => .unknown
  | _ => .binop

/-- The record of an expression. -/
def Expr.form : Expr → Form
  | unknown number => ⟨.unknown, "unknown", [number], none⟩
  | constant value => ⟨.unop, "const", [], some value⟩
  | apply op operands => ⟨op.kind, op.name, operands, none⟩

/-- A record as a JSON value. -/
def Form.encode (form : Form) : Json.Value :=
  .object ([("kind", .text form.kind.name), ("op", .text form.op),
    ("refs", .list (form.refs.map fun number : Nat => .integer number))]
      ++ member? "value" (form.value.map Literal.encode))

/-- The JSON text of an expression. -/
def Expr.json (expr : Expr) : String :=
  expr.form.encode.compact

/-- Kinds have different names. -/
theorem Kind.name_injective {one other : Kind} (same : one.name = other.name) : one = other := by
  cases one <;> cases other <;> first | rfl | exact absurd same (by decide)

/-- No operation is called as unknown values are. -/
theorem Lang.ValueOp.name_ne_unknown (op : ValueOp) : op.name ≠ "unknown" := by
  cases op <;> decide

/-- The record of an expression says what the expression is. -/
theorem Expr.form_injective {one other : Expr} (same : one.form = other.form) : one = other := by
  cases one with
  | unknown number =>
    cases other with
    | unknown number' => simpa [form] using same
    | constant value => simp [form] at same
    | apply op operands => exact absurd (congrArg Form.op same).symm op.name_ne_unknown
  | constant value =>
    cases other with
    | unknown number => simp [form] at same
    | constant value' => simpa [form] using same
    | apply op operands => exact absurd (congrArg Form.op same).symm op.name_ne_const
  | apply op operands =>
    cases other with
    | unknown number => exact absurd (congrArg Form.op same) op.name_ne_unknown
    | constant value => exact absurd (congrArg Form.op same) op.name_ne_const
    | apply op' operands' =>
      obtain rfl := ValueOp.name_injective (congrArg Form.op same)
      simpa [form] using same

/-- A written string delimits itself. -/
theorem selfDelimiting_writeText : SelfDelimiting writeText id fun _ => True := by
  intro one other _ _ rest rest' same
  rw [Json.writeText_append, Json.writeText_append, List.cons_eq_cons] at same
  have read := Json.readText_written one rest
  rw [same.2, Json.readText_written, Except.ok.injEq, Prod.mk.injEq] at read
  exact ⟨read.1.symm, read.2.symm⟩

/-- A number behind a comma ends where no digit follows. -/
theorem readable_number : Readable (fun number : Nat => ',' :: Nat.toDigits 10 number) id
    (fun _ => True) fun next => Json.isDigit next = false := by
  intro one other _ _ rest rest' stops stops' same
  obtain ⟨letters, rests⟩ := append_inj_of_forall (fun _ => Json.isDigit_of_mem_toDigits)
    (fun _ => Json.isDigit_of_mem_toDigits) (fun first heads => by simp [stops first heads])
    (fun first heads => by simp [stops' first heads]) (List.cons_eq_cons.1 same).2
  refine ⟨?_, rests⟩
  have numbers := congrArg Json.digitsValue letters
  rwa [Json.digitsValue_toDigits, Json.digitsValue_toDigits] at numbers

/-- Numbers behind commas are told from what follows the closing bracket. -/
theorem numbers_append_inj {numbers numbers' : List Nat} {rest rest' : List Char}
    (same : numbers.flatMap (fun number => ',' :: Nat.toDigits 10 number) ++ ']' :: rest =
      numbers'.flatMap (fun number => ',' :: Nat.toDigits 10 number) ++ ']' :: rest') :
    numbers = numbers' ∧ rest = rest' := by
  have opens : OpensWith (fun number : Nat => ',' :: Nat.toDigits 10 number) (fun _ => True)
      (· = ',') := fun number _ => ⟨',', _, rfl, rfl⟩
  obtain ⟨lists, rests⟩ := readable_number.flatMap opens (by rintro _ rfl; decide)
    (fun _ _ => trivial) (fun _ _ => trivial) (by rintro _ ⟨⟩; decide) (by rintro _ ⟨⟩; decide) same
  rw [List.map_id, List.map_id] at lists
  exact ⟨lists, (List.cons_eq_cons.1 rests).2⟩

/-- The letters of a number. -/
theorem writeCompact_number (number : Nat) :
    writeCompact (.integer number) = Nat.toDigits 10 number := by
  rw [writeCompact, Json.writeScalar]
  · exact Json.toList_toString_ofNat number
  all_goals exact nofun

/-- The letters of numbers behind the first of a list. -/
theorem writeCompactItems_numbers (numbers : List Nat) :
    writeCompactItems (numbers.map fun number : Nat => .integer number) =
      numbers.flatMap (fun number => ',' :: Nat.toDigits 10 number) ++ [']'] := by
  induction numbers with
  | nil => rfl
  | cons number numbers ih =>
    rw [List.map_cons, writeCompactItems, writeCompact_number, ih, List.flatMap_cons,
      List.append_assoc, List.cons_append]

/-- No number begins with a closing bracket. -/
theorem toDigits_append_ne (number : Nat) (letters rest : List Char) :
    Nat.toDigits 10 number ++ letters ≠ ']' :: rest := by
  obtain ⟨first, others, digits⟩ := List.exists_cons_of_ne_nil
    (Nat.toDigits_ne_nil : Nat.toDigits 10 number ≠ [])
  have numeric := Json.isDigit_of_mem_toDigits (digits ▸ List.mem_cons_self : first ∈ _)
  rw [digits, List.cons_append, ne_eq, List.cons_eq_cons]
  rintro ⟨rfl, -⟩
  exact absurd numeric (by decide)

/-- The letters of a list of numbers. -/
def numbersLetters (numbers : List Nat) : List Char :=
  writeCompact (.list (numbers.map fun number : Nat => .integer number))

/-- A list of numbers is written between brackets, with commas between the numbers. -/
theorem numbersLetters_cons (number : Nat) (numbers : List Nat) :
    numbersLetters (number :: numbers) = '[' :: (Nat.toDigits 10 number ++
      (numbers.flatMap (fun number => ',' :: Nat.toDigits 10 number) ++ [']'])) := by
  rw [numbersLetters, List.map_cons, writeCompact, writeCompact_number, writeCompactItems_numbers]
  rfl

/-- A list of numbers delimits itself. -/
theorem selfDelimiting_numbers : SelfDelimiting numbersLetters id fun _ => True := by
  intro one other _ _ rest rest' same
  cases one with
  | nil =>
    cases other with
    | nil => exact ⟨rfl, List.append_cancel_left same⟩
    | cons number numbers =>
      rw [numbersLetters_cons, List.cons_append, List.append_assoc] at same
      exact absurd (List.cons_eq_cons.1 same).2.symm (toDigits_append_ne number _ rest)
  | cons number numbers =>
    cases other with
    | nil =>
      rw [numbersLetters_cons, List.cons_append, List.append_assoc] at same
      exact absurd (List.cons_eq_cons.1 same).2 (toDigits_append_ne number _ rest')
    | cons number' numbers' =>
      rw [numbersLetters_cons, numbersLetters_cons, List.cons_append, List.cons_append,
        List.cons_eq_cons] at same
      refine numbers_append_inj ?_
      simpa using same.2

/-- The letters of a literal. -/
def Lang.Literal.letters (literal : Literal) : List Char :=
  writeCompact literal.encode

/-- A literal that JSON has a number for if it is a floating-point number. -/
def Lang.Literal.isFinite : Literal → Bool
  | float value => value.isFinite
  | int _ | bool _ | char _ => true

/-- The letters of a finite real number. -/
theorem Lang.Literal.letters_float {value : Binary64} (finite : value.isFinite = true) :
    (Literal.float value).letters = (Decimal.Layout.json.write value).toList := by
  rw [letters, encode, writeCompact, Json.writeScalar, if_pos finite]
  all_goals exact nofun

/-- How a literal is written in JSON. -/
inductive LiteralSort
  | number
  | keyword
  | text
deriving DecidableEq

/-- How a literal is written that begins with a character. -/
def LiteralSort.ofFirst (first : Char) : LiteralSort :=
  if first = '"' then text else if first = 't' || first = 'f' then keyword else number

/-- How a literal is written. -/
def Lang.Literal.sort : Literal → LiteralSort
  | int _ | float _ => .number
  | bool _ => .keyword
  | char _ => .text

/-- A number does not begin as strings and keywords do. -/
theorem LiteralSort.ofFirst_number {first : Char}
    (numeric : first = '-' ∨ Json.isDigit first = true) : ofFirst first = .number := by
  have differs (other : Char) (letter : other ≠ '-' ∧ Json.isDigit other = false) :
      first ≠ other := by
    rintro rfl
    rcases numeric with minus | digit
    · exact letter.1 minus
    · rw [letter.2] at digit
      cases digit
  simp [ofFirst, differs '"' (by decide), differs 't' (by decide), differs 'f' (by decide)]

/-- The first character of a literal says how it is written. -/
theorem Lang.Literal.exists_letters {literal : Literal} (finite : literal.isFinite = true) :
    ∃ first others,
      literal.letters = first :: others ∧ LiteralSort.ofFirst first = literal.sort := by
  cases literal with
  | int value =>
    obtain ⟨first, others, written, numeric⟩ := Json.exists_cons_toString value.toInt
    exact ⟨first, others, written, LiteralSort.ofFirst_number numeric⟩
  | bool value => cases value <;> exact ⟨_, _, rfl, rfl⟩
  | float value =>
    obtain ⟨first, others, written, numeric⟩ := Json.exists_cons_real value
    rw [letters_float finite]
    exact ⟨first, others, written, LiteralSort.ofFirst_number numeric⟩
  | char value => exact ⟨_, _, rfl, rfl⟩

/-- A literal that is finite is told from what ends a number behind it. -/
theorem Lang.Literal.letters_append_inj {one other : Literal} {rest rest' : List Char}
    (finite : one.isFinite = true) (finite' : other.isFinite = true)
    (ends : EndsNumber rest) (ends' : EndsNumber rest')
    (same : one.letters ++ rest = other.letters ++ rest') : one = other ∧ rest = rest' := by
  obtain ⟨first, others, written, sort⟩ := exists_letters finite
  obtain ⟨first', others', written', sort'⟩ := exists_letters finite'
  have sorts : one.sort = other.sort := by
    rw [written, written'] at same
    rw [← sort, ← sort', (List.cons_eq_cons.1 same).1]
  cases one with
  | int value =>
    cases other with
    | int value' =>
      obtain ⟨values, rests⟩ := readable_int trivial trivial ends ends' same
      exact ⟨congrArg Literal.int values, rests⟩
    | float value' =>
      rw [letters_float finite'] at same
      exact absurd same (Json.integer_append_ne_real ends ends')
    | bool | char => cases sorts
  | float value =>
    cases other with
    | float value' =>
      rw [letters_float finite, letters_float finite'] at same
      obtain ⟨rfl, rests⟩ := Json.real_append_inj ends ends' same
      exact ⟨rfl, rests⟩
    | int value' =>
      rw [letters_float finite] at same
      exact absurd same.symm (Json.integer_append_ne_real ends' ends)
    | bool | char => cases sorts
  | bool value =>
    cases other with
    | bool value' =>
      cases value <;> cases value'
      · exact ⟨rfl, List.append_cancel_left same⟩
      · exact absurd (List.cons_eq_cons.1 same).1 (by decide : 'f' ≠ 't')
      · exact absurd (List.cons_eq_cons.1 same).1 (by decide : 't' ≠ 'f')
      · exact ⟨rfl, List.append_cancel_left same⟩
    | int | float | char => cases sorts
  | char value =>
    cases other with
    | char value' =>
      obtain ⟨values, rests⟩ := selfDelimiting_writeText trivial trivial same
      refine ⟨congrArg Literal.char ?_, rests⟩
      simpa [Char.toString] using congrArg String.toList values
    | int | float | bool => cases sorts

/-- The letters of a record behind its references. -/
def endingLetters (value : Option Literal) : List Char :=
  Json.writeCompactMembers (member? "value" (value.map Literal.encode))

/-- The end of a record says what its literal is, if that is finite. -/
theorem endingLetters_injective {one other : Option Literal}
    (finite : ∀ literal ∈ one, literal.isFinite = true)
    (finite' : ∀ literal ∈ other, literal.isFinite = true)
    (same : endingLetters one = endingLetters other) : one = other := by
  have present (value : Literal) : endingLetters (some value) =
      ',' :: writeText "value" ++ ':' :: (value.letters ++ ['\x7d']) := by
    simp [endingLetters, member?, Json.writeCompactMembers, Literal.letters]
  cases one with
  | none =>
    cases other with
    | none => rfl
    | some value =>
      rw [present] at same
      exact absurd (List.cons_eq_cons.1 same).1 (by decide)
  | some value =>
    cases other with
    | none =>
      rw [present] at same
      exact absurd (List.cons_eq_cons.1 same).1 (by decide)
    | some value' =>
      have ends : EndsNumber ['\x7d'] := by
        rintro _ ⟨⟩
        decide
      rw [present, present, List.append_cancel_left_eq, List.cons_eq_cons] at same
      exact congrArg some
        (Literal.letters_append_inj (finite value rfl) (finite' value' rfl) ends ends same.2).1

/-- The letters of a record. -/
theorem Form.writeCompact_encode (form : Form) : writeCompact form.encode =
    '\x7b' :: writeText "kind" ++ ':' :: (writeText form.kind.name ++
      (',' :: writeText "op" ++ ':' :: (writeText form.op ++
        (',' :: writeText "refs" ++ ':' :: (numbersLetters form.refs ++
          endingLetters form.value))))) := by
  simp [Form.encode, writeCompact, Json.writeScalar, Json.writeCompactMembers, numbersLetters,
    endingLetters]

/-- Expressions whose floating-point literals are finite, as all numbers in JSON are. -/
def Expr.isFinite : Expr → Bool
  | constant value => value.isFinite
  | unknown _ | apply .. => true

/-- The literal of a finite expression is finite. -/
theorem Expr.isFinite_of_mem_form {expr : Expr} (finite : expr.isFinite = true) :
    ∀ literal ∈ expr.form.value, literal.isFinite = true := by
  intro literal member
  cases expr with
  | constant value =>
    obtain rfl := Option.mem_some.1 member
    exact finite
  | unknown | apply => cases member

/-- The JSON text of a finite expression says what the expression is. -/
theorem Expr.json_injective {one other : Expr} (finite : one.isFinite = true)
    (finite' : other.isFinite = true) (same : one.json = other.json) : one = other := by
  have letters : writeCompact one.form.encode = writeCompact other.form.encode := by
    simpa [Expr.json, Json.Value.compact] using congrArg String.toList same
  rw [Form.writeCompact_encode, Form.writeCompact_encode, List.append_cancel_left_eq,
    List.cons_eq_cons] at letters
  obtain ⟨kinds, letters⟩ := selfDelimiting_writeText trivial trivial letters.2
  rw [List.append_cancel_left_eq, List.cons_eq_cons] at letters
  obtain ⟨ops, letters⟩ := selfDelimiting_writeText trivial trivial letters.2
  rw [List.append_cancel_left_eq, List.cons_eq_cons] at letters
  obtain ⟨refs, letters⟩ := selfDelimiting_numbers trivial trivial letters.2
  have values := endingLetters_injective (isFinite_of_mem_form finite)
    (isFinite_of_mem_form finite') letters
  exact form_injective (Form.ext (Kind.name_injective kinds) ops refs values)

/-- The sign of a zero is written. -/
example : (Expr.constant (.float ⟨0x8000000000000000⟩)).json =
    "\x7b\"kind\":\"unop\",\"op\":\"const\",\"refs\":[],\"value\":-0.0\x7d" := by
  decide

end Midend
