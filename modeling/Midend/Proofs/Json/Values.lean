import Midend.Proofs.Json.Nesting
import Midend.Proofs.Json.Numerals
import Midend.Proofs.Json.Text
import Mathlib.Data.List.Forall2

/-!
# Values that are written and read back

The indented text of a value is read back as the value, as long as it nests no deeper than allowed,
holds no floating-point numbers, and its integers fit sixty-four bits. Lists and objects are treated
for any reader of items and any visitor of members, so that typed readers can use the same lemmas.
-/

namespace Midend.Json

/-- A text that begins with a token that neither closes a list nor separates its items. -/
def BeginsItem (text : List Char) : Prop :=
  ∃ first others, text = first :: others ∧ isBlank first = false ∧ first ≠ ']' ∧ first ≠ ','

/-- A reader reads a value back from a text, behind any blanks and in front of anything that does
not go on with a number. -/
def ReadsBack {α : Type} (reader : List Char → Except Fault (α × List Char)) (text : List Char)
    (value : α) : Prop :=
  ∀ input rest, skipBlanks input = text ++ rest → EndsNumber rest →
    reader input = .ok (value, rest)

/-- The text of a value at a level of indentation begins an item and is read back as something. -/
structure IsItem {α : Type} (item : List Char → Except Fault (α × List Char)) (level : Nat)
    (value : Value) (given : α) : Prop where
  begins : BeginsItem (writePretty level value)
  reads : ReadsBack item (writePretty level value) given

/-- No blanks stand in front of an item. -/
theorem BeginsItem.skipBlanks_append {text : List Char} (begins : BeginsItem text)
    (rest : List Char) : skipBlanks (text ++ rest) = text ++ rest := by
  obtain ⟨first, others, rfl, visible, -⟩ := begins
  exact skipBlanks_cons visible (others ++ rest)

/-- An item is read from where it begins. -/
theorem IsItem.read {α : Type} {item : List Char → Except Fault (α × List Char)} {level : Nat}
    {value : Value} {given : α} (isItem : IsItem item level value given) {rest : List Char}
    (ends : EndsNumber rest) : item (writePretty level value ++ rest) = .ok (given, rest) :=
  isItem.reads _ _ (isItem.begins.skipBlanks_append rest) ends

/-- An item on a line of its own stands behind blanks. -/
theorem IsItem.skipBlanks_newline {α : Type} {item : List Char → Except Fault (α × List Char)}
    {level : Nat} {value : Value} {given : α} (isItem : IsItem item level value given)
    (rest : List Char) :
    skipBlanks (newline level ++ (writePretty level value ++ rest)) =
      writePretty level value ++ rest := by
  rw [Json.skipBlanks_newline, isItem.begins.skipBlanks_append]

/-- A value that is written from a visible character on, which neither closes a list nor separates
its items, is an item if it is read from there. -/
theorem isItem_of_written {α : Type} {item : List Char → Except Fault (α × List Char)}
    {level : Nat} {value : Value} {given : α} {first : Char} {others : List Char}
    (written : writePretty level value = first :: others)
    (begins : isBlank first = false ∧ first ≠ ']' ∧ first ≠ ',')
    (reads : ∀ input rest, skipBlanks input = first :: (others ++ rest) → EndsNumber rest →
      item input = .ok (given, rest)) : IsItem item level value given := by
  refine ⟨⟨first, others, written, begins⟩, fun input rest stands ends => ?_⟩
  rw [written, List.cons_append] at stands
  exact reads input rest stands ends

/-- A line break ends a number. -/
theorem endsNumber_newline (level : Nat) (rest : List Char) :
    EndsNumber (newline level ++ rest) := by
  intro next isNext
  cases isNext
  decide

/-- A comma ends a number. -/
theorem endsNumber_comma (rest : List Char) : EndsNumber (',' :: rest) := by
  intro next isNext
  cases isNext
  decide

/-- A bracket closes a list. -/
theorem nextItem_close (isFirst : Bool) {input rest : List Char}
    (closes : skipBlanks input = ']' :: rest) : nextItem isFirst input = .ok none := by
  unfold nextItem
  rw [closes]
  rfl

/-- The input behind a list starts behind its bracket. -/
theorem closeList_close {input rest : List Char} (closes : skipBlanks input = ']' :: rest) :
    closeList input = .ok rest := by
  unfold closeList
  rw [closes]
  rfl

/-- The first item of a list stands behind blanks. -/
theorem nextItem_first {text : List Char} (begins : BeginsItem text) {input rest : List Char}
    (stands : skipBlanks input = text ++ rest) :
    nextItem true input = .ok (some (text ++ rest)) := by
  obtain ⟨first, others, rfl, -, notClose, notComma⟩ := begins
  unfold nextItem
  rw [stands, List.cons_append]
  split
  next same => cases same
  next same =>
    rw [List.cons.injEq] at same
    exact absurd same.1 notClose
  next same =>
    rw [List.cons.injEq] at same
    exact absurd same.1 notComma
  next => rfl

/-- A further item of a list stands behind a comma and blanks. -/
theorem nextItem_further {text : List Char} (begins : BeginsItem text) {input rest : List Char}
    (stands : skipBlanks input = text ++ rest) :
    nextItem false (',' :: input) = .ok (some (text ++ rest)) := by
  obtain ⟨first, others, rfl, -, notClose, -⟩ := begins
  unfold nextItem
  rw [skipBlanks_cons (by decide)]
  simp only [stands, List.cons_append, Bool.false_eq_true, if_false]
  split
  next same => cases same
  next same =>
    rw [List.cons.injEq] at same
    exact absurd same.1 notClose
  next => rfl

section Lists

variable {α : Type} {item : List Char → Except Fault (α × List Char)} {level : Nat}

/-- Behind an item stands a comma or a line break. -/
theorem endsNumber_writeItems (level : Nat) (values : List Value) (rest : List Char) :
    EndsNumber (writeItems level values ++ rest) := by
  cases values with
  | nil =>
    rw [writeItems, List.append_assoc]
    exact endsNumber_newline level _
  | cons value values =>
    rw [writeItems]
    exact endsNumber_comma _

/-- Every item takes a letter, and so does the bracket. -/
theorem length_lt_writeItems (level : Nat) (values : List Value) :
    values.length < (writeItems level values).length := by
  induction values with
  | nil =>
    rw [writeItems, List.length_append, List.length_nil, List.length_singleton]
    omega
  | cons value values ih =>
    rw [writeItems, List.length_append, List.length_append, List.length_cons, List.length_cons]
    omega

/-- The items behind the first one are read back. -/
theorem readItems_writeItems {values : List Value} {items : List α}
    (areItems : List.Forall₂ (IsItem item (level + 1)) values items) (rest : List Char) {fuel : Nat}
    (enough : values.length < fuel) :
    readItems item fuel false (writeItems level values ++ rest) = .ok (items, rest) := by
  induction areItems generalizing fuel with
  | nil =>
    obtain ⟨fuel, rfl⟩ := Nat.exists_eq_succ_of_ne_zero (Nat.ne_of_gt enough)
    have closes : skipBlanks (writeItems level [] ++ rest) = ']' :: rest := by
      rw [writeItems, List.append_assoc, skipBlanks_newline]
      rfl
    rw [Nat.succ_eq_add_one, readItems, nextItem_close false closes]
    simp only [bind, Except.bind, closeList_close closes]
  | @cons value given values items isItem _ ih =>
    obtain ⟨fuel, rfl⟩ := Nat.exists_eq_succ_of_ne_zero (Nat.ne_of_gt (Nat.zero_lt_of_lt enough))
    have others := ih (Nat.lt_of_succ_lt_succ enough)
    have first := isItem.read (endsNumber_writeItems level values rest)
    have stands := isItem.skipBlanks_newline (writeItems level values ++ rest)
    rw [writeItems, List.append_assoc, List.append_assoc, List.cons_append, Nat.succ_eq_add_one,
      readItems, nextItem_further isItem.begins stands]
    simp only [bind, Except.bind, first, others]

/-- What stands behind the opening bracket of a list is read back as its items. -/
theorem exists_readItems {values : List Value} {items : List α}
    (areItems : List.Forall₂ (IsItem item (level + 1)) values items) :
    ∃ body, writePretty level (.list values) = '[' :: body ∧ ∀ rest,
      readItems item ((body ++ rest).length + 1) true (body ++ rest) = .ok (items, rest) := by
  cases areItems with
  | nil =>
    refine ⟨[']'], by rw [writePretty], fun rest => ?_⟩
    have closes : skipBlanks ([']'] ++ rest) = ']' :: rest := skipBlanks_cons (by decide) rest
    rw [readItems, nextItem_close true closes]
    simp only [bind, Except.bind, closeList_close closes]
  | @cons value given values items isItem areItems =>
    refine ⟨newline (level + 1) ++ writePretty (level + 1) value ++ writeItems level values,
      by rw [writePretty, List.cons_append, List.cons_append], fun rest => ?_⟩
    have first := isItem.read (endsNumber_writeItems level values rest)
    have stands := isItem.skipBlanks_newline (writeItems level values ++ rest)
    have letters := length_lt_writeItems level values
    rw [List.append_assoc, List.append_assoc, readItems, nextItem_first isItem.begins stands]
    simp only [bind, Except.bind, first]
    rw [readItems_writeItems areItems rest (by simp only [List.length_append]; omega)]

end Lists

/-- A brace closes an object. -/
theorem nextKey_close (isFirst : Bool) {input rest : List Char}
    (closes : skipBlanks input = '\x7d' :: rest) : nextKey isFirst input = .ok none := by
  unfold nextKey
  rw [closes]
  rfl

/-- The input behind an object starts behind its brace. -/
theorem closeObject_close {input rest : List Char} (closes : skipBlanks input = '\x7d' :: rest) :
    closeObject input = .ok rest := by
  unfold closeObject
  rw [closes]
  rfl

/-- The first key of an object stands behind blanks. -/
theorem nextKey_first {input rest : List Char} (stands : skipBlanks input = '"' :: rest) :
    nextKey true input = .ok (some rest) := by
  unfold nextKey
  rw [stands]
  rfl

/-- A further key of an object stands behind a comma and blanks. -/
theorem nextKey_further {input rest : List Char} (stands : skipBlanks input = '"' :: rest) :
    nextKey false (',' :: input) = .ok (some rest) := by
  unfold nextKey
  rw [skipBlanks_cons (by decide)]
  simp only [stands, Bool.false_eq_true, if_false]

/-- A key on a line of its own stands behind blanks. -/
theorem skipBlanks_newline_writeText (level : Nat) (name : String) (rest : List Char) :
    skipBlanks (newline level ++ (writeText name ++ rest)) =
      '"' :: (name.toList.flatMap escaped ++ '"' :: rest) := by
  rw [skipBlanks_newline, writeText_append]
  exact skipBlanks_cons (by decide) _

section Objects

variable {σ : Type} {visit : σ → String → List Char → Except Fault (σ × List Char)} {level : Nat}

/-- The visitor of members goes from state to state along the texts of members at a level of
indentation. -/
inductive Visits (visit : σ → String → List Char → Except Fault (σ × List Char)) (level : Nat) :
    σ → List (String × Value) → σ → Prop
  | done (state : σ) : Visits visit level state [] state
  | member {state next last : σ} {name : String} {value : Value} {members : List (String × Value)}
      (visited : ∀ rest, EndsNumber rest →
        visit state name (':' :: ' ' :: (writePretty level value ++ rest)) = .ok (next, rest))
      (others : Visits visit level next members last) :
      Visits visit level state ((name, value) :: members) last

/-- Members are visited one part after the other. -/
theorem Visits.append {first next last : σ} {members others : List (String × Value)}
    (front : Visits visit level first members next) (back : Visits visit level next others last) :
    Visits visit level first (members ++ others) last := by
  induction front with
  | done => exact back
  | member visited _ ih => exact .member visited (ih back)

/-- Behind a member stands a comma or a line break. -/
theorem endsNumber_writeMembers (level : Nat) (members : List (String × Value))
    (rest : List Char) : EndsNumber (writeMembers level members ++ rest) := by
  cases members with
  | nil =>
    rw [writeMembers, List.append_assoc]
    exact endsNumber_newline level _
  | cons member members =>
    rw [writeMembers]
    exact endsNumber_comma _

/-- Every member takes a letter, and so does the brace. -/
theorem length_lt_writeMembers (level : Nat) (members : List (String × Value)) :
    members.length < (writeMembers level members).length := by
  induction members with
  | nil =>
    rw [writeMembers, List.length_append, List.length_nil, List.length_singleton]
    omega
  | cons member members ih =>
    rw [writeMembers]
    simp only [List.length_append, List.length_cons]
    omega

/-- The members behind the first one are visited. -/
theorem foldMembers_writeMembers {first last : σ} {members : List (String × Value)}
    (visits : Visits visit (level + 1) first members last) (rest : List Char) {fuel : Nat}
    (enough : members.length < fuel) :
    foldMembers readText visit fuel false first (writeMembers level members ++ rest) =
      .ok (last, rest) := by
  induction visits generalizing fuel with
  | done state =>
    obtain ⟨fuel, rfl⟩ := Nat.exists_eq_succ_of_ne_zero (Nat.ne_of_gt enough)
    have closes : skipBlanks (writeMembers level [] ++ rest) = '\x7d' :: rest := by
      rw [writeMembers, List.append_assoc, skipBlanks_newline]
      rfl
    rw [Nat.succ_eq_add_one, foldMembers, nextKey_close false closes]
    simp only [bind, Except.bind, closeObject_close closes]
  | @member state next last name value members visited _ ih =>
    obtain ⟨fuel, rfl⟩ := Nat.exists_eq_succ_of_ne_zero (Nat.ne_of_gt (Nat.zero_lt_of_lt enough))
    have others := ih (Nat.lt_of_succ_lt_succ enough)
    have first := visited _ (endsNumber_writeMembers level members rest)
    rw [writeMembers]
    simp only [List.append_assoc, List.cons_append, List.nil_append]
    rw [Nat.succ_eq_add_one, foldMembers, nextKey_further (skipBlanks_newline_writeText _ _ _)]
    simp only [bind, Except.bind, readText_written, first, others]

/-- What stands behind the opening brace of an object is visited. -/
theorem exists_foldMembers {first last : σ} {members : List (String × Value)}
    (visits : Visits visit (level + 1) first members last) :
    ∃ body, writePretty level (.object members) = '\x7b' :: body ∧ ∀ rest,
      foldMembers readText visit ((body ++ rest).length + 1) true first (body ++ rest) =
        .ok (last, rest) := by
  cases visits with
  | done =>
    refine ⟨['\x7d'], by rw [writePretty], fun rest => ?_⟩
    have closes : skipBlanks (['\x7d'] ++ rest) = '\x7d' :: rest := skipBlanks_cons (by decide) rest
    rw [foldMembers, nextKey_close true closes]
    simp only [bind, Except.bind, closeObject_close closes]
  | @member _ next _ name value members visited others =>
    refine ⟨newline (level + 1) ++ writeText name ++ [':', ' '] ++ writePretty (level + 1) value ++
      writeMembers level members, by rw [writePretty]; rfl, fun rest => ?_⟩
    have first := visited _ (endsNumber_writeMembers level members rest)
    have letters := length_lt_writeMembers level members
    simp only [List.append_assoc, List.cons_append, List.nil_append]
    rw [foldMembers, nextKey_first (skipBlanks_newline_writeText _ _ _)]
    simp only [bind, Except.bind, readText_written, first]
    rw [foldMembers_writeMembers others rest
      (by simp only [List.length_append, List.length_cons]; omega)]

end Objects

/-- A scalar that is written exactly: no floating-point number, and no integer of more than
sixty-four bits. -/
def Value.IsExact : Value → Prop
  | .integer value => -2 ^ 63 ≤ value ∧ value < 2 ^ 64
  | .real _ => False
  | _ => True

/-- Behind a colon and a space an item is read. -/
theorem IsItem.behindColon {α : Type} {item : List Char → Except Fault (α × List Char)}
    {level : Nat} {value : Value} {given : α} (isItem : IsItem item level value given)
    {rest : List Char} (ends : EndsNumber rest) :
    ∃ start, passColon (':' :: ' ' :: (writePretty level value ++ rest)) = .ok start ∧
      item start = .ok (given, rest) := by
  refine ⟨' ' :: (writePretty level value ++ rest), ?_, isItem.reads _ _ ?_ ends⟩
  · unfold passColon
    rw [skipBlanks_cons (by decide)]
    rfl
  · rw [skipBlanks_space, isItem.begins.skipBlanks_append]

/-- What begins with a sign or a digit is read as a number. -/
theorem readValue_number (depth : Nat) {input others : List Char} {first : Char}
    (stands : skipBlanks input = first :: others) (numeric : first = '-' ∨ isDigit first = true) :
    readValue depth input = readNumber (first :: others) := by
  have otherwise {letter : Char} {beyond : List Char} (same : first :: others = letter :: beyond)
      (other : ¬(letter = '-' ∨ isDigit letter = true)) : False := by
    rw [List.cons.injEq] at same
    exact other (same.1 ▸ numeric)
  unfold readValue
  rw [Leaves.read.eq_def, stands]
  split
  next same => cases same
  next same => exact (otherwise same (by decide)).elim
  next same => exact (otherwise same (by decide)).elim
  next same => exact (otherwise same (by decide)).elim
  next same => exact (otherwise same (by decide)).elim
  next same => exact (otherwise same (by decide)).elim
  next same => exact (otherwise same (by decide)).elim
  next same =>
    rw [List.cons.injEq] at same
    rw [← same.1, ← same.2, if_pos (by simpa using numeric)]
    rfl

/-- A scalar is written as its letters at every level. -/
theorem writePretty_of_isScalar (level : Nat) {value : Value} (scalar : value.isScalar = true) :
    writePretty level value = writeScalar value := by
  cases value with
  | list => cases scalar
  | object => cases scalar
  | _ => simp [writePretty]

/-- A string is an item if it is read behind its quote. -/
theorem isItem_of_text {α : Type} {item : List Char → Except Fault (α × List Char)} {level : Nat}
    {text : String} {given : α}
    (reads : ∀ input behind rest, skipBlanks input = '"' :: behind →
      readText behind = .ok (text, rest) → item input = .ok (given, rest)) :
    IsItem item level (.text text) given := by
  have written : writePretty level (.text text) = writeText text :=
    writePretty_of_isScalar level rfl
  refine ⟨⟨'"', _, by rw [written, writeText]; rfl, by decide⟩, fun input rest stands _ => ?_⟩
  rw [written, writeText_append] at stands
  exact reads input _ rest stands (readText_written text rest)

/-- An integer of at most sixty-four bits is an item if it is read as a number from its sign or its
first digit on. -/
theorem isItem_of_integer {α : Type} {item : List Char → Except Fault (α × List Char)} {level : Nat}
    {value : Int} {given : α} (exact : (Value.integer value).IsExact)
    (reads : ∀ input first others rest, skipBlanks input = first :: others →
      first = '-' ∨ isDigit first = true →
      readNumber (first :: others) = .ok (.integer value, rest) → item input = .ok (given, rest)) :
    IsItem item level (.integer value) given := by
  obtain ⟨first, others, digits, numeric⟩ := exists_cons_toString value
  have written : writePretty level (.integer value) = first :: others :=
    (writePretty_of_isScalar level rfl).trans digits
  have differs {letter : Char} (other : ¬(letter = '-' ∨ isDigit letter = true)) :
      first ≠ letter := fun same => other (same ▸ numeric)
  have visible : isBlank first = false := by
    have space : first ≠ ' ' := differs (by decide)
    have tab : first ≠ '\t' := differs (by decide)
    have lineFeed : first ≠ '\n' := differs (by decide)
    have carriageReturn : first ≠ '\r' := differs (by decide)
    simp [isBlank, space, tab, lineFeed, carriageReturn]
  have begins : isBlank first = false ∧ first ≠ ']' ∧ first ≠ ',' :=
    ⟨visible, differs (by decide), differs (by decide)⟩
  refine isItem_of_written written begins fun input rest stands ends => ?_
  have read := readNumber_written exact.1 exact.2 ends
  rw [digits, List.cons_append] at read
  exact reads input first (others ++ rest) rest stands numeric read

/-- A truth value is read back. -/
theorem isItem_boolean (depth level : Nat) (value : Bool) :
    IsItem (readValue depth) level (.boolean value) (.boolean value) := by
  cases value with
  | true =>
    have written : writePretty level (.boolean true) = ['t', 'r', 'u', 'e'] :=
      writePretty_of_isScalar level rfl
    refine isItem_of_written written (by decide) fun input rest stands _ => ?_
    unfold readValue
    rw [Leaves.read.eq_def, stands]
    rfl
  | false =>
    have written : writePretty level (.boolean false) = ['f', 'a', 'l', 's', 'e'] :=
      writePretty_of_isScalar level rfl
    refine isItem_of_written written (by decide) fun input rest stands _ => ?_
    unfold readValue
    rw [Leaves.read.eq_def, stands]
    rfl

/-- An exact scalar is read back. -/
theorem isItem_scalar (depth level : Nat) {value : Value} (scalar : value.isScalar = true)
    (exact : value.IsExact) : IsItem (readValue depth) level value value := by
  cases value with
  | list => cases scalar
  | object => cases scalar
  | real => exact exact.elim
  | boolean value => exact isItem_boolean depth level value
  | null =>
    have written : writePretty level .null = ['n', 'u', 'l', 'l'] :=
      writePretty_of_isScalar level rfl
    refine isItem_of_written written (by decide) fun input rest stands _ => ?_
    unfold readValue
    rw [Leaves.read.eq_def, stands]
    rfl
  | text text =>
    refine isItem_of_text fun input behind rest stands read => ?_
    unfold readValue
    rw [Leaves.read.eq_def, stands]
    exact bind_eq_ok_iff.2 ⟨_, read, rfl⟩
  | integer value =>
    refine isItem_of_integer exact fun input first others rest stands numeric read => ?_
    rw [readValue_number depth stands numeric, read]

/-- Members whose values are read back are added one after the other. -/
theorem visits_addMember {depth level : Nat} {members : List (String × Value)}
    (areItems : ∀ member ∈ members, IsItem (readValue depth) level member.2 member.2)
    (state : Array (String × Value)) :
    Visits (addMember (readValue depth)) level state members (state ++ members.toArray) := by
  induction members generalizing state with
  | nil =>
    rw [Array.append_empty]
    exact .done state
  | cons member members ih =>
    have others := ih (fun other among => areItems other (List.mem_cons_of_mem member among))
      (state.push member)
    have together :
        state ++ (member :: members).toArray = state.push member ++ members.toArray := by
      simp
    rw [together]
    refine .member (fun rest ends => ?_) others
    obtain ⟨start, passed, read⟩ := (areItems member List.mem_cons_self).behindColon ends
    exact bind_eq_ok_iff.2 ⟨start, passed, bind_eq_ok_iff.2 ⟨_, read, rfl⟩⟩

/-- A value that nests no deeper than allowed, with exact scalars, is read back. -/
theorem isItem_readValue {depth : Nat} {value : Value} (nests : value.Nests Value.IsExact depth)
    (level : Nat) : IsItem (readValue depth) level value value := by
  induction nests generalizing level with
  | scalar scalar exact => exact isItem_scalar _ level scalar exact
  | @list depth items _ ih =>
    have areItems : List.Forall₂ (IsItem (readValue depth) (level + 1)) items items :=
      List.forall₂_same.2 fun item member => ih item member (level + 1)
    obtain ⟨body, written, reads⟩ := exists_readItems areItems
    refine isItem_of_written written (by decide) fun input rest stands _ => ?_
    unfold readValue
    rw [Leaves.read.eq_def, stands]
    exact bind_eq_ok_iff.2 ⟨_, reads rest, rfl⟩
  | @object depth members _ ih =>
    have areItems : ∀ member ∈ members, IsItem (readValue depth) (level + 1) member.2 member.2 :=
      fun member among => ih member among (level + 1)
    obtain ⟨body, written, reads⟩ := exists_foldMembers (visits_addMember areItems #[])
    refine isItem_of_written written (by decide) fun input rest stands _ => ?_
    unfold readValue
    rw [Leaves.read.eq_def, stands]
    exact bind_eq_ok_iff.2 ⟨_, reads rest, by simp⟩

end Midend.Json
