import Mathlib.Data.List.Basic
import Std.Data.TreeMap

/-!
# Maps made item by item

A map that is made by going through items and putting down an entry for those that have a value has
an entry under a key when an item with that key has a value, and it is that of the last such item.
-/

namespace Midend

variable {κ α β γ : Type} [Ord κ] [Std.TransOrd κ] [Std.LawfulEqOrd κ] (keyOf : α → κ)
  (value? : α → Option β) (make : β → γ)

/-- Entries for the items that have values, under their keys. -/
def insertAll (items : List α) (map : Std.TreeMap κ γ) : Std.TreeMap κ γ :=
  items.foldl (fun map item =>
    match value? item with
    | none => map
    | some value => map.insert (keyOf item) (make value)) map

/-- Items under other keys leave an entry as it is. -/
theorem getElem?_insertAll_of_ne (items : List α) (map : Std.TreeMap κ γ) (key : κ)
    (others : ∀ item ∈ items, ∀ value, value? item = some value → keyOf item ≠ key) :
    (insertAll keyOf value? make items map)[key]? = map[key]? := by
  induction items generalizing map with
  | nil => rfl
  | cons item items ih =>
    rw [insertAll, List.foldl_cons, ← insertAll,
      ih _ fun other member => others other (List.mem_cons_of_mem _ member)]
    split
    · rfl
    next value found =>
      have different := others item List.mem_cons_self value found
      rw [Std.TreeMap.getElem?_insert, if_neg (by rwa [Std.LawfulEqCmp.compare_eq_iff_eq])]

/-- The entry under a key is that of the last item with that key. -/
theorem getElem?_insertAll (items : List α) (map : Std.TreeMap κ γ) {index : Nat} {item : α}
    {value : β} (found : items[index]? = some item) (hasValue : value? item = some value)
    (last : ∀ later other, index < later → items[later]? = some other →
      ∀ value, value? other = some value → keyOf other ≠ keyOf item) :
    (insertAll keyOf value? make items map)[keyOf item]? = some (make value) := by
  have split : items = items.take index ++ item :: items.drop (index + 1) := by
    obtain ⟨inside, rfl⟩ := List.getElem?_eq_some_iff.1 found
    rw [List.getElem_cons_drop, List.take_append_drop]
  have rest : ∀ other ∈ items.drop (index + 1), ∀ value, value? other = some value →
      keyOf other ≠ keyOf item := by
    intro other member
    obtain ⟨offset, stands⟩ := List.getElem?_of_mem member
    rw [List.getElem?_drop] at stands
    exact last _ other (by omega) stands
  have entry := getElem?_insertAll_of_ne keyOf value? make (items.drop (index + 1))
    ((insertAll keyOf value? make (items.take index) map).insert (keyOf item) (make value))
    (keyOf item) rest
  rw [Std.TreeMap.getElem?_insert_self] at entry
  rw [← entry]
  conv_lhs => rw [split, insertAll, List.foldl_append, List.foldl_cons, hasValue]
  rfl

/-- There are entries under the keys of the items that have values. -/
theorem mem_insertAll (items : List α) (map : Std.TreeMap κ γ) (key : κ) :
    key ∈ insertAll keyOf value? make items map ↔
      key ∈ map ∨ ∃ item ∈ items, (∃ value, value? item = some value) ∧ keyOf item = key := by
  induction items generalizing map with
  | nil => simp [insertAll]
  | cons item items ih =>
    rw [insertAll, List.foldl_cons, ← insertAll, ih]
    simp only [List.exists_mem_cons_iff]
    cases value? item with
    | none => simp
    | some value =>
      simp only [Std.TreeMap.mem_insert, Std.LawfulEqCmp.compare_eq_iff_eq, Option.some.injEq,
        exists_eq', true_and]
      rw [or_assoc, or_left_comm]

end Midend
