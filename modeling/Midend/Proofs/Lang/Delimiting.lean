import Mathlib.Data.List.Basic

/-!
# Text that tells where it ends

Texts stand one behind the other without anything between them. A text delimits itself when what it
says and where it ends are known whatever stands behind it; others can be read as long as certain
characters follow. Texts in a row, and texts with a mark between them, are told from what follows
them by the characters that they begin with.
-/

namespace Midend.Lang

variable {α β : Type} {write : α → List Char} {sense : α → β} {valid : α → Prop}
  {ends starts : Char → Prop}

/-- What is written of a valid thing in front of a rest says what the thing is and what the rest is,
as long as the rest is empty or begins with a character that may follow. -/
def Readable (write : α → List Char) (sense : α → β) (valid : α → Prop) (ends : Char → Prop) :
    Prop :=
  ∀ ⦃one other : α⦄, valid one → valid other → ∀ ⦃rest rest' : List Char⦄,
    (∀ first ∈ rest.head?, ends first) → (∀ first ∈ rest'.head?, ends first) →
    write one ++ rest = write other ++ rest' → sense one = sense other ∧ rest = rest'

/-- What is written of a valid thing in front of a rest says what the thing is and what the rest
is. -/
def SelfDelimiting (write : α → List Char) (sense : α → β) (valid : α → Prop) : Prop :=
  ∀ ⦃one other : α⦄, valid one → valid other → ∀ ⦃rest rest' : List Char⦄,
    write one ++ rest = write other ++ rest' → sense one = sense other ∧ rest = rest'

/-- What is written of valid things begins with certain characters. -/
def OpensWith (write : α → List Char) (valid : α → Prop) (starts : Char → Prop) : Prop :=
  ∀ item, valid item → ∃ first others, write item = first :: others ∧ starts first

/-- What delimits itself can be read in front of anything. -/
theorem SelfDelimiting.readable (delimiting : SelfDelimiting write sense valid) :
    Readable write sense valid ends :=
  fun _ _ known known' _ _ _ _ same => delimiting known known' same

/-- What delimits itself does so behind a mark. -/
theorem SelfDelimiting.behind (delimiting : SelfDelimiting write sense valid) (mark : List Char) :
    SelfDelimiting (fun item => mark ++ write item) sense valid := by
  intro one other known known' rest rest' same
  rw [List.append_assoc, List.append_assoc] at same
  exact delimiting known known' (List.append_cancel_left same)

/-- A text that does not begin as things do is not what is written of one. -/
theorem OpensWith.ne_append (opens : OpensWith write valid starts) {item : α} (known : valid item)
    {text rest : List Char} (stops : ∀ first ∈ text.head?, ¬starts first) :
    text ≠ write item ++ rest := by
  rintro rfl
  obtain ⟨first, others, written, start⟩ := opens item known
  rw [written] at stops
  exact stops first rfl start

/-- Things in a row begin with a character that may follow, if what stands behind them does. -/
theorem OpensWith.flatMap (opens : OpensWith write valid starts)
    (follow : ∀ first, starts first → ends first) {items : List α}
    (known : ∀ item ∈ items, valid item) {rest : List Char}
    (stops : ∀ first ∈ rest.head?, ends first) :
    ∀ first ∈ (items.flatMap write ++ rest).head?, ends first := by
  cases items with
  | nil => exact stops
  | cons item items =>
    obtain ⟨first, others, written, start⟩ := opens item (known item List.mem_cons_self)
    rw [List.flatMap_cons, written]
    rintro _ ⟨⟩
    exact follow first start

/-- Characters of one kind are told from a rest that does not begin with one. -/
theorem append_inj_of_forall {kind : Char → Prop} {text text' rest rest' : List Char}
    (all : ∀ character ∈ text, kind character) (all' : ∀ character ∈ text', kind character)
    (stops : ∀ first ∈ rest.head?, ¬kind first) (stops' : ∀ first ∈ rest'.head?, ¬kind first)
    (same : text ++ rest = text' ++ rest') : text = text' ∧ rest = rest' := by
  induction text generalizing text' with
  | nil =>
    cases text' with
    | nil => exact ⟨rfl, same⟩
    | cons first others =>
      obtain rfl : rest = first :: (others ++ rest') := same
      exact absurd (all' first List.mem_cons_self) (stops first rfl)
  | cons first others ih =>
    cases text' with
    | nil =>
      obtain rfl : first :: (others ++ rest) = rest' := same
      exact absurd (all first List.mem_cons_self) (stops' first rfl)
    | cons first' others' =>
      obtain ⟨rfl, later⟩ := List.cons_eq_cons.1 same
      rw [List.forall_mem_cons] at all all'
      obtain ⟨rfl, ends⟩ := ih all.2 all'.2 later
      exact ⟨rfl, ends⟩

/-- Things in a row are told from a rest that does not begin as they do. -/
theorem Readable.flatMap (readable : Readable write sense valid ends)
    (opens : OpensWith write valid starts) (follow : ∀ first, starts first → ends first)
    {items items' : List α} (known : ∀ item ∈ items, valid item)
    (known' : ∀ item ∈ items', valid item) {rest rest' : List Char}
    (stops : ∀ first ∈ rest.head?, ends first ∧ ¬starts first)
    (stops' : ∀ first ∈ rest'.head?, ends first ∧ ¬starts first)
    (same : items.flatMap write ++ rest = items'.flatMap write ++ rest') :
    items.map sense = items'.map sense ∧ rest = rest' := by
  induction items generalizing items' with
  | nil =>
    cases items' with
    | nil => exact ⟨rfl, same⟩
    | cons item' items' =>
      rw [List.flatMap_cons, List.append_assoc] at same
      exact absurd same (opens.ne_append (known' item' List.mem_cons_self)
        fun first heads => (stops first heads).2)
  | cons item items ih =>
    cases items' with
    | nil =>
      rw [List.flatMap_cons, List.append_assoc] at same
      exact absurd same.symm (opens.ne_append (known item List.mem_cons_self)
        fun first heads => (stops' first heads).2)
    | cons item' items' =>
      rw [List.flatMap_cons, List.flatMap_cons, List.append_assoc, List.append_assoc] at same
      rw [List.forall_mem_cons] at known known'
      obtain ⟨first, same⟩ := readable known.1 known'.1
        (opens.flatMap follow known.2 fun first heads => (stops first heads).1)
        (opens.flatMap follow known'.2 fun first heads => (stops' first heads).1) same
      obtain ⟨later, same⟩ := ih known.2 known'.2 same
      exact ⟨by rw [List.map_cons, List.map_cons, first, later], same⟩

/-- Things in a row that delimit themselves are told from a rest that does not begin as they do. -/
theorem SelfDelimiting.flatMap (delimiting : SelfDelimiting write sense valid)
    (opens : OpensWith write valid starts) {items items' : List α}
    (known : ∀ item ∈ items, valid item) (known' : ∀ item ∈ items', valid item)
    {rest rest' : List Char} (stops : ∀ first ∈ rest.head?, ¬starts first)
    (stops' : ∀ first ∈ rest'.head?, ¬starts first)
    (same : items.flatMap write ++ rest = items'.flatMap write ++ rest') :
    items.map sense = items'.map sense ∧ rest = rest' := by
  have readable : Readable write sense valid fun _ => True := delimiting.readable
  exact readable.flatMap opens (fun _ _ => trivial) known known'
    (fun first heads => ⟨trivial, stops first heads⟩)
    (fun first heads => ⟨trivial, stops' first heads⟩) same

/-- Things with a mark between them are written as the first, and the others each behind a mark. -/
theorem intercalate_map_cons (mark : List Char) (write : α → List Char) (item : α)
    (items : List α) : mark.intercalate ((item :: items).map write) =
      write item ++ items.flatMap fun other => mark ++ write other := by
  induction items generalizing item with
  | nil => simp
  | cons other items ih =>
    rw [List.map_cons, List.map_cons, List.intercalate_cons_cons, ← List.map_cons, ih,
      List.flatMap_cons, List.append_assoc, List.append_assoc]

/-- Things with a mark between them are told from a rest that begins neither as they do nor as the
mark does. -/
theorem SelfDelimiting.intercalate (delimiting : SelfDelimiting write sense valid)
    (opens : OpensWith write valid starts) {mark : Char} (starts_mark : starts mark)
    (marks : List Char) {items items' : List α} (known : ∀ item ∈ items, valid item)
    (known' : ∀ item ∈ items', valid item) {rest rest' : List Char}
    (stops : ∀ first ∈ rest.head?, ¬starts first) (stops' : ∀ first ∈ rest'.head?, ¬starts first)
    (same : (mark :: marks).intercalate (items.map write) ++ rest =
      (mark :: marks).intercalate (items'.map write) ++ rest') :
    items.map sense = items'.map sense ∧ rest = rest' := by
  have marked : OpensWith (fun item => mark :: marks ++ write item) valid starts :=
    fun item _ => ⟨mark, _, rfl, starts_mark⟩
  cases items with
  | nil =>
    cases items' with
    | nil => exact ⟨rfl, same⟩
    | cons item' items' =>
      rw [intercalate_map_cons, List.append_assoc] at same
      exact absurd same (opens.ne_append (known' item' List.mem_cons_self) stops)
  | cons item items =>
    cases items' with
    | nil =>
      rw [intercalate_map_cons, List.append_assoc] at same
      exact absurd same.symm (opens.ne_append (known item List.mem_cons_self) stops')
    | cons item' items' =>
      rw [intercalate_map_cons, intercalate_map_cons, List.append_assoc, List.append_assoc] at same
      rw [List.forall_mem_cons] at known known'
      obtain ⟨first, same⟩ := delimiting known.1 known'.1 same
      obtain ⟨later, same⟩ := (delimiting.behind (mark :: marks)).flatMap marked known.2 known'.2
        stops stops' same
      exact ⟨by rw [List.map_cons, List.map_cons, first, later], same⟩

end Midend.Lang
