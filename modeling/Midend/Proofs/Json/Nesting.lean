import Midend.Json.Record
import Midend.Proofs.Traversal

/-!
# What readers give

A reader that succeeds gives something of a kind, whatever the input was: lists hold items of the
kind that their reader gives, what the visitors of members keep holds of what is built from all of
them, and values nest no deeper than the reader may open brackets.
-/

namespace Midend.Json

/-- A value that is neither a list nor an object. -/
def Value.isScalar : Value → Bool
  | .list _ | .object _ => false
  | _ => true

/-- A value that opens at most `depth` brackets at once, with scalars of a kind. -/
inductive Value.Nests (kind : Value → Prop) : (depth : Nat) → Value → Prop
  | scalar {depth : Nat} {value : Value} (scalar : value.isScalar = true) (ofKind : kind value) :
      Nests kind depth value
  | list {depth : Nat} {items : List Value} (within : ∀ item ∈ items, Nests kind depth item) :
      Nests kind (depth + 1) (.list items)
  | object {depth : Nat} {members : List (String × Value)}
      (within : ∀ member ∈ members, Nests kind depth member.2) :
      Nests kind (depth + 1) (.object members)

/-- A reader that gives only things of a kind. -/
def Gives {α : Type} (reader : List Char → Except Fault (α × List Char)) (kind : α → Prop) : Prop :=
  ∀ input value rest, reader input = .ok (value, rest) → kind value

/-- A reader gives things of a wider kind, too. -/
theorem Gives.mono {α : Type} {reader : List Char → Except Fault (α × List Char)}
    {kind wider : α → Prop} (gives : Gives reader kind) (wide : ∀ value, kind value → wider value) :
    Gives reader wider :=
  fun input value rest read => wide value (gives input value rest read)

/-- Every reader gives something. -/
theorem gives_anything {α : Type} (reader : List Char → Except Fault (α × List Char)) :
    Gives reader fun _ => True :=
  fun _ _ _ _ => trivial

/-- The items of a list are of the kind that their reader gives. -/
theorem gives_readItems {α : Type} {item : List Char → Except Fault (α × List Char)}
    {kind : α → Prop} (gives : Gives item kind) (fuel : Nat) (isFirst : Bool) :
    Gives (readItems item fuel isFirst) fun items => ∀ value ∈ items, kind value := by
  induction fuel generalizing isFirst with
  | zero =>
    intro input items rest read
    cases read
  | succ fuel ih =>
    intro input items rest read
    rw [readItems, bind_eq_ok_iff] at read
    obtain ⟨start?, -, read⟩ := read
    cases start? with
    | none =>
      obtain ⟨behind, -, closed⟩ := bind_eq_ok_iff.1 read
      cases closed
      exact nofun
    | some start =>
      obtain ⟨⟨first, behind⟩, isFirst, read⟩ := bind_eq_ok_iff.1 read
      obtain ⟨⟨others, beyond⟩, areOthers, read⟩ := bind_eq_ok_iff.1 read
      cases read
      intro value member
      rcases List.mem_cons.1 member with rfl | later
      · exact gives _ _ _ isFirst
      · exact ih false _ _ _ areOthers value later

/-- What every visitor of a member keeps holds behind all members. -/
theorem gives_foldMembers {σ : Type} {key : List Char → Except Fault (String × List Char)}
    {visit : σ → String → List Char → Except Fault (σ × List Char)} {kind : σ → Prop}
    (keeps : ∀ state name, kind state → Gives (visit state name) kind) (fuel : Nat)
    (isFirst : Bool) {state : σ} (start : kind state) :
    Gives (foldMembers key visit fuel isFirst state) kind := by
  induction fuel generalizing isFirst state with
  | zero =>
    intro input result rest read
    cases read
  | succ fuel ih =>
    intro input result rest read
    rw [foldMembers, bind_eq_ok_iff] at read
    obtain ⟨start?, -, read⟩ := read
    cases start? with
    | none =>
      obtain ⟨behind, -, closed⟩ := bind_eq_ok_iff.1 read
      cases closed
      exact start
    | some begins =>
      obtain ⟨⟨name, behind⟩, -, read⟩ := bind_eq_ok_iff.1 read
      obtain ⟨⟨next, beyond⟩, visited, read⟩ := bind_eq_ok_iff.1 read
      exact ih false (keeps state name start _ _ _ visited) _ _ _ read

/-- A number is read as an integer or as a floating-point number. -/
theorem gives_readNumber : Gives readNumber fun value => value.isScalar = true := by
  intro input value rest read
  obtain ⟨⟨numeral, behind⟩, -, read⟩ := bind_eq_ok_iff.1 read
  obtain ⟨outcome, evaluated, read⟩ := bind_eq_ok_iff.1 read
  cases read
  unfold Numeral.value at evaluated
  simp only at evaluated
  split at evaluated
  · cases evaluated
    unfold integerValue
    split
    · rfl
    · split <;> rfl
  · unfold evaluate at evaluated
    simp only at evaluated
    split at evaluated
    · obtain ⟨number, -, signs⟩ := bind_eq_ok_iff.1 evaluated
      cases signs
      rfl
    · split at evaluated
      · split at evaluated
        · cases evaluated
        · cases evaluated
          rfl
      · obtain ⟨number, -, signs⟩ := bind_eq_ok_iff.1 evaluated
        cases signs
        rfl

/-- What is read is a scalar, or a list or an object that opens one bracket of those allowed. -/
theorem cases_of_readValue {depth : Nat} {input : List Char} {value : Value} {rest : List Char}
    (read : readValue depth input = .ok (value, rest)) :
    value.isScalar = true ∨ ∃ inner, depth = inner + 1 ∧
      ((∃ start items, value = .list items ∧
        readItems (readValue inner) (start.length + 1) true start = .ok (items, rest)) ∨
      ∃ start members, value = .object members.toList ∧
        foldMembers readText (addMember (readValue inner)) (start.length + 1) true #[] start =
          .ok (members, rest)) := by
  unfold readValue at read
  rw [Leaves.read.eq_def] at read
  split at read
  · cases read
  · obtain ⟨behind, -, read⟩ := bind_eq_ok_iff.1 read
    cases read
    exact .inl rfl
  · obtain ⟨behind, -, read⟩ := bind_eq_ok_iff.1 read
    cases read
    exact .inl rfl
  · obtain ⟨behind, -, read⟩ := bind_eq_ok_iff.1 read
    cases read
    exact .inl rfl
  · obtain ⟨behind, -, read⟩ := bind_eq_ok_iff.1 read
    cases read
    exact .inl rfl
  next start _ =>
    cases depth with
    | zero => cases read
    | succ inner =>
      obtain ⟨items, areItems, read⟩ := bind_eq_ok_iff.1 read
      cases read
      exact .inr ⟨inner, rfl, .inl ⟨start, _, rfl, areItems⟩⟩
  next start _ =>
    cases depth with
    | zero => cases read
    | succ inner =>
      obtain ⟨members, areMembers, read⟩ := bind_eq_ok_iff.1 read
      cases read
      exact .inr ⟨inner, rfl, .inr ⟨start, _, rfl, areMembers⟩⟩
  · split at read
    · exact .inl (gives_readNumber _ _ _ read)
    · cases read

/-- Values are read with no more brackets open at once than allowed. -/
theorem gives_readValue (depth : Nat) :
    Gives (readValue depth) fun value => value.Nests (fun _ => True) depth := by
  induction depth with
  | zero =>
    intro input value rest read
    rcases cases_of_readValue read with scalar | ⟨inner, deeper, -⟩
    · exact .scalar scalar trivial
    · cases deeper
  | succ depth ih =>
    intro input value rest read
    rcases cases_of_readValue read with scalar | ⟨inner, deeper, list | object⟩
    · exact .scalar scalar trivial
    · obtain ⟨start, items, rfl, areItems⟩ := list
      obtain rfl := Nat.succ.inj deeper
      exact .list (gives_readItems ih _ _ _ _ _ areItems)
    · obtain ⟨start, members, rfl, areMembers⟩ := object
      obtain rfl := Nat.succ.inj deeper
      have keeps (state : Array (String × Value)) (name : String)
          (nested : ∀ member ∈ state.toList, member.2.Nests (fun _ => True) depth) :
          Gives (addMember (readValue depth) state name) fun members =>
            ∀ member ∈ members.toList, member.2.Nests (fun _ => True) depth := by
        intro input members rest read
        obtain ⟨behind, -, read⟩ := bind_eq_ok_iff.1 read
        obtain ⟨⟨value, beyond⟩, isValue, read⟩ := bind_eq_ok_iff.1 read
        cases read
        intro member among
        rw [Array.toList_push] at among
        rcases List.mem_append.1 among with old | new
        · exact nested member old
        · rw [List.mem_singleton.1 new]
          exact ih _ _ _ isValue
      exact .object (gives_foldMembers keeps _ _ (by simp) _ _ _ areMembers)

/-- The items of a list are read with one more bracket open. -/
theorem gives_readList {α : Type} {item : Reader α} {kind : α → Prop} {depth : Nat}
    (gives : ∀ inner, depth = inner + 1 → Gives (item inner) kind) :
    Gives (readList item depth) fun items => ∀ value ∈ items, kind value := by
  intro input items rest read
  unfold readList at read
  split at read
  next start =>
    cases depth with
    | zero => cases read
    | succ inner => exact gives_readItems (gives inner rfl) _ _ _ _ _ read
  next =>
    obtain ⟨kind, -, refused⟩ := bind_eq_ok_iff.1 read
    cases refused

/-- What may be absent is of the kind that its reader gives if it is there. -/
theorem gives_readOptional {α : Type} {value : Reader α} {kind : α → Prop} {depth : Nat}
    (gives : Gives (value depth) kind) :
    Gives (readOptional value depth) fun given? => ∀ given ∈ given?, kind given := by
  intro input given? rest read
  unfold readOptional at read
  split at read
  · obtain ⟨behind, -, read⟩ := bind_eq_ok_iff.1 read
    cases read
    exact nofun
  · obtain ⟨⟨given, behind⟩, isGiven, read⟩ := bind_eq_ok_iff.1 read
    cases read
    intro other same
    cases same
    exact gives _ _ _ isGiven

/-- A field that is put into a record keeps what holds of the record when the value that is read for
it does. -/
theorem gives_putting {α β : Type} {required : Bool} {name : String} {value : Reader β}
    {set : α → β → α} {kind : α → Prop} {part : β → Prop} {depth : Nat}
    (gives : Gives (value depth) part)
    (keeps : ∀ draft given, kind draft → part given → kind (set draft given)) (draft : α)
    (holds : kind draft) :
    Gives ((Field.putting required name value set).read draft depth) kind := by
  intro input result rest read
  obtain ⟨⟨given, behind⟩, isGiven, read⟩ := bind_eq_ok_iff.1 read
  cases read
  exact keeps draft given holds (gives _ _ _ isGiven)

/-- What every field keeps holds of a record that is read from a list. -/
theorem gives_readPositions {α : Type} (record : Record α) {kind : α → Prop} {depth : Nat}
    (index : Nat) {fields : List (Field α)}
    (keeps : ∀ field ∈ fields, ∀ draft, kind draft → Gives (field.read draft depth) kind)
    {draft : α} (holds : kind draft) :
    Gives (record.readPositions depth index fields draft) kind := by
  induction fields generalizing index draft with
  | nil =>
    intro input result rest read
    obtain ⟨behind, -, closed⟩ := bind_eq_ok_iff.1 read
    cases closed
    exact holds
  | cons field fields ih =>
    have others : ∀ field ∈ fields, ∀ draft, kind draft → Gives (field.read draft depth) kind :=
      fun other member => keeps other (List.mem_cons_of_mem field member)
    intro input result rest read
    obtain ⟨start?, -, read⟩ := bind_eq_ok_iff.1 read
    cases start? with
    | some start =>
      obtain ⟨⟨next, behind⟩, isNext, read⟩ := bind_eq_ok_iff.1 read
      have kept := keeps field List.mem_cons_self draft holds _ _ _ isNext
      exact ih (index + 1) others kept _ _ _ read
    | none =>
      dsimp only at read
      split at read
      · cases read
      · exact ih index others holds _ _ _ read

/-- What every field keeps holds of a record that is read from an object. -/
theorem gives_readMembers {α : Type} {record : Record α} {kind : α → Prop} {depth : Nat}
    (blank : kind record.blank)
    (keeps : ∀ field ∈ record.fields, ∀ draft, kind draft → Gives (field.read draft depth) kind) :
    Gives (record.readMembers depth) kind := by
  have visits (state : α × List String) (name : String) (holds : kind state.1) :
      Gives (record.readMember depth state name) fun next => kind next.1 := by
    intro input next rest read
    unfold Record.readMember at read
    split at read
    next field isField =>
      split at read
      · cases read
      · obtain ⟨behind, -, read⟩ := bind_eq_ok_iff.1 read
        obtain ⟨⟨draft, beyond⟩, isDraft, read⟩ := bind_eq_ok_iff.1 read
        cases read
        exact keeps field (List.mem_of_find?_eq_some isField) _ holds _ _ _ isDraft
    next =>
      obtain ⟨behind, -, read⟩ := bind_eq_ok_iff.1 read
      obtain ⟨beyond, -, read⟩ := bind_eq_ok_iff.1 read
      cases read
      exact holds
  intro input result rest read
  obtain ⟨⟨⟨draft, met⟩, behind⟩, folded, read⟩ := bind_eq_ok_iff.1 read
  have holds : kind draft := gives_foldMembers visits _ _ blank _ _ _ folded
  dsimp only at read
  split at read
  · cases read
  · cases read
    exact holds

/-- What every field of a record keeps holds of the record that is read, with one more bracket
open. -/
theorem gives_record {α : Type} {record : Record α} {kind : α → Prop} {depth : Nat}
    (blank : 0 < depth → kind record.blank)
    (keeps : ∀ inner, depth = inner + 1 → ∀ field ∈ record.fields, ∀ draft, kind draft →
      Gives (field.read draft inner) kind) :
    Gives (record.read depth) kind := by
  intro input result rest read
  unfold Record.read at read
  split at read
  -- A record stands as a list of its fields or as an object, and each opens a bracket.
  · cases depth with
    | zero => cases read
    | succ inner =>
      have start := blank (Nat.succ_pos inner)
      exact gives_readPositions record 0 (keeps inner rfl) start _ _ _ read
  · cases depth with
    | zero => cases read
    | succ inner =>
      have start := blank (Nat.succ_pos inner)
      exact gives_readMembers start (keeps inner rfl) _ _ _ read
  · obtain ⟨kind, -, refused⟩ := bind_eq_ok_iff.1 read
    cases refused

end Midend.Json
