import Midend.Proofs.Json.Values

/-!
# Typed readers read back what is written

A typed reader reads its thing back from the text of a value when the readers of the parts do.
-/

namespace Midend.Json

/-- A string is read back. -/
theorem isItem_readString (depth level : Nat) (text : String) :
    IsItem (readString depth) level (.text text) text := by
  refine isItem_of_text fun input behind rest stands read => ?_
  unfold readString
  rw [stands]
  exact read

/-- A natural number of thirty-two bits is read back. -/
theorem isItem_readUInt32 (depth level : Nat) (number : UInt32) :
    IsItem (readUInt32 depth) level (.integer number.toNat) number := by
  have bound := number.toNat_lt
  have exact : (Value.integer number.toNat).IsExact := ⟨by omega, by omega⟩
  refine isItem_of_integer exact fun input first others rest stands numeric read => ?_
  unfold readUInt32
  rw [stands]
  dsimp only
  rw [if_pos (by simpa using numeric)]
  refine bind_eq_ok_iff.2 ⟨_, read, ?_⟩
  dsimp only
  rw [if_pos (by simpa using number.toNat_lt_size)]
  simp

/-- A list is read back when its items are. -/
theorem isItem_readList {α : Type} {item : Reader α} {depth level : Nat} {values : List Value}
    {items : List α} (areItems : List.Forall₂ (IsItem (item depth) (level + 1)) values items) :
    IsItem (readList item (depth + 1)) level (.list values) items := by
  obtain ⟨body, written, reads⟩ := exists_readItems areItems
  refine isItem_of_written written (by decide) fun input rest stands _ => ?_
  unfold readList
  rw [stands]
  exact reads rest

/-- A list of things is read back when each of them is. -/
theorem isItem_readList_map {α : Type} {item : Reader α} {encode : α → Value} {depth level : Nat}
    {items : List α} (areItems : ∀ one ∈ items, IsItem (item depth) (level + 1) (encode one) one) :
    IsItem (readList item (depth + 1)) level (.list (items.map encode)) items :=
  isItem_readList (List.forall₂_map_left_iff.2 (List.forall₂_same.2 areItems))

/-- Something that is there is read back as such, unless it begins like `null`. -/
theorem isItem_readOptional {α : Type} {reader : Reader α} {depth level : Nat} {value : Value}
    {given : α} (isItem : IsItem (reader depth) level value given)
    (notNull : (writePretty level value).head? ≠ some 'n') :
    IsItem (readOptional reader depth) level value (some given) := by
  refine ⟨isItem.begins, fun input rest stands ends => ?_⟩
  have read := isItem.read ends
  obtain ⟨first, others, written, -⟩ := isItem.begins
  unfold readOptional
  rw [stands]
  split
  next same =>
    rw [written, List.cons_append, List.cons.injEq] at same
    rw [written, same.1] at notNull
    exact absurd rfl notNull
  next => exact bind_eq_ok_iff.2 ⟨_, read, rfl⟩

/-- A field that is put into a record is read back when its value is. -/
theorem isItem_putting {α β : Type} {required : Bool} {name : String} {reader : Reader β}
    {set : α → β → α} {depth level : Nat} {value : Value} {given : β}
    (isItem : IsItem (reader depth) level value given) (draft : α) :
    IsItem ((Field.putting required name reader set).read draft depth) level value
      (set draft given) :=
  ⟨isItem.begins, fun input rest stands ends =>
    bind_eq_ok_iff.2 ⟨_, isItem.reads input rest stands ends, rfl⟩⟩

section Records

variable {α : Type} {record : Record α} {depth level : Nat}

/-- A member of a record is visited when its field is read back and was not met before. -/
theorem visits_member {field : Field α} {name : String}
    (known : record.fields.find? (·.name == name) = some field) {met : List String}
    (fresh : name ∉ met) {draft next : α} {value : Value}
    (isItem : IsItem (field.read draft depth) level value next) :
    Visits (record.readMember depth) level (draft, met) [(name, value)] (next, name :: met) := by
  refine .member (fun rest ends => ?_) (.done _)
  obtain ⟨start, passed, read⟩ := isItem.behindColon ends
  rw [Record.readMember, known]
  simp only [List.contains_iff_mem, fresh, if_false, passed, bind, Except.bind, read]

/-- A member that may be left out is visited when its field is read back; without it the record has
to have the value already. -/
theorem exists_visits_member? {field : Field α} {name : String}
    (known : record.fields.find? (·.name == name) = some field) {met : List String}
    (fresh : name ∉ met) {draft next : α} {value? : Option Value}
    (absent : value? = none → next = draft)
    (present : ∀ value ∈ value?, IsItem (field.read draft depth) level value next) :
    ∃ later, Visits (record.readMember depth) level (draft, met)
        (value?.toList.map fun value => (name, value)) (next, later) ∧
      met ⊆ later ∧ later ⊆ name :: met := by
  cases value? with
  | none =>
    rw [absent rfl]
    exact ⟨met, .done _, List.Subset.refl met, List.subset_cons_self name met⟩
  | some value =>
    exact ⟨name :: met, visits_member known fresh (present value rfl),
      List.subset_cons_self name met, List.Subset.refl _⟩

/-- A record is read back from an object whose members are visited up to the record and include the
required ones. -/
theorem isItem_record {members : List (String × Value)} {given : α} {met : List String}
    (visits : Visits (record.readMember depth) (level + 1) (record.blank, []) members (given, met))
    (complete : record.missing? met = none) :
    IsItem (record.read (depth + 1)) level (.object members) given := by
  obtain ⟨body, written, reads⟩ := exists_foldMembers visits
  refine isItem_of_written written (by decide) fun input rest stands _ => ?_
  have folded : record.readMembers depth (body ++ rest) = .ok (given, rest) := by
    rw [Record.readMembers, reads rest]
    simp only [bind, Except.bind, complete]
  unfold Record.read
  rw [stands]
  exact folded

end Records

end Midend.Json
