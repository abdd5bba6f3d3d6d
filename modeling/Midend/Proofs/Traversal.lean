import Mathlib.Data.List.Forall2

/-!
# Computations that may fail

Computations in a row succeed one after the other. A traversal by a computation succeeds exactly
when the computation succeeds at every item, and its results then stand in the order of the items.
-/

namespace Midend

variable {α β ε : Type}

/-- Two computations in a row succeed when the first does and the second does on its result. -/
theorem bind_eq_ok_iff {first : Except ε α} {second : α → Except ε β} {result : β} :
    (first >>= second) = .ok result ↔
      ∃ between, first = .ok between ∧ second between = .ok result := by
  cases first with
  | error fault => simp [bind, Except.bind]
  | ok between => simp [bind, Except.bind]

/-- A traversal succeeds with the results of its items, in order, and in no other way. -/
theorem mapM_eq_ok_iff (compute : α → Except ε β) (items : List α) (results : List β) :
    items.mapM compute = .ok results ↔
      List.Forall₂ (fun item result => compute item = .ok result) items results := by
  induction items generalizing results with
  | nil =>
    rw [List.mapM_nil, List.forall₂_nil_left_iff]
    constructor
    · intro succeeded
      cases succeeded
      rfl
    · rintro rfl
      rfl
  | cons item items ih =>
    rw [List.mapM_cons, List.forall₂_cons_left_iff]
    cases first : compute item with
    | error fault => simp [bind, Except.bind]
    | ok result =>
      cases others : items.mapM compute with
      | error fault =>
        simp only [bind, Except.bind, Except.ok.injEq, reduceCtorEq, false_iff]
        rintro ⟨_, more, _, along, _⟩
        rw [(ih more).2 along] at others
        cases others
      | ok more =>
        have along := (ih more).1 others
        simp only [bind, Except.bind, pure, Except.pure, Except.ok.injEq]
        constructor
        · rintro rfl
          exact ⟨result, more, rfl, along, rfl⟩
        · rintro ⟨found, rest, rfl, alongRest, rfl⟩
          rw [(ih rest).2 alongRest] at others
          cases others
          rfl

/-- A traversal by a computation that looks at its items in one view does the same to any items that
give this view. -/
theorem mapM_congr_of_map_eq {γ : Type} {view : α → γ} {compute : α → Except ε β}
    (views : ∀ item other, view item = view other → compute item = compute other)
    {items others : List α} (same : items.map view = others.map view) :
    items.mapM compute = others.mapM compute := by
  induction items generalizing others with
  | nil => rw [List.map_eq_nil_iff.1 same.symm]
  | cons item items ih =>
    obtain ⟨other, more, rfl, first, later⟩ := List.map_eq_cons_iff.1 same.symm
    rw [List.mapM_cons, List.mapM_cons, views item other first.symm, ih later.symm]

/-- What stands in a list is related to something in another list when the lists are related. -/
theorem exists_of_forall₂ {relation : α → β → Prop} {items : List α} {others : List β}
    (related : List.Forall₂ relation items others) {item : α} (member : item ∈ items) :
    ∃ other ∈ others, relation item other := by
  induction related with
  | nil => cases member
  | cons first _ ih =>
    rcases List.mem_cons.1 member with rfl | later
    · exact ⟨_, List.mem_cons_self, first⟩
    · obtain ⟨other, among, found⟩ := ih later
      exact ⟨other, List.mem_cons_of_mem _ among, found⟩

/-- A computation that succeeds at every item succeeds along the list. -/
theorem exists_mapM_eq_ok (compute : α → Except ε β) (items : List α)
    (succeeds : ∀ item ∈ items, ∃ result, compute item = .ok result) :
    ∃ results, items.mapM compute = .ok results := by
  induction items with
  | nil => exact ⟨[], rfl⟩
  | cons item items ih =>
    obtain ⟨result, first⟩ := succeeds item List.mem_cons_self
    obtain ⟨results, others⟩ :=
      ih fun other member => succeeds other (List.mem_cons_of_mem _ member)
    exact ⟨result :: results, by simp [first, others, bind, Except.bind, pure, Except.pure]⟩

/-- A traversal fails where the computation fails first. -/
theorem mapM_eq_error {compute : α → Except ε β} {before after : List α} {item : α} {fault : ε}
    (succeeds : ∀ other ∈ before, ∃ result, compute other = .ok result)
    (fails : compute item = .error fault) :
    (before ++ item :: after).mapM compute = .error fault := by
  obtain ⟨results, along⟩ := exists_mapM_eq_ok compute before succeeds
  rw [List.mapM_append, along, List.mapM_cons, fails]
  rfl

end Midend
