import Midend.Graph.Search
import Mathlib.Algebra.BigOperators.Group.Finset.Basic
import Mathlib.Algebra.Order.BigOperators.Group.Finset
import Mathlib.Logic.Relation

/-!
# What a search reaches

A search whose budget covers the pending places and the edges that leave unvisited ones comes to its
end, as it would without a budget, and then to a set of places that is closed under going on. It
therefore finds what can be reached from its starting places, and nothing else.
-/

namespace Midend

/-- The number of edges that leave the unvisited places among the first `count`. -/
def edgesAhead (next : Nat → List Nat) (count : Nat) (visited : List Nat) : Nat :=
  ∑ place ∈ Finset.range count, if place ∈ visited then 0 else (next place).length

/-- Visiting a place takes the edges that leave it off those ahead. -/
theorem edgesAhead_visit (next : Nat → List Nat) (count : Nat) (visited : List Nat) (place : Nat)
    (outside : ∀ other, count ≤ other → next other = []) (unvisited : place ∉ visited) :
    edgesAhead next count (visited ++ [place]) + (next place).length =
      edgesAhead next count visited := by
  unfold edgesAhead
  by_cases inside : place < count
  · have member : place ∈ Finset.range count := Finset.mem_range.2 inside
    rw [← Finset.add_sum_erase _ _ member, ← Finset.add_sum_erase (Finset.range count) _ member]
    have others : ∀ other ∈ (Finset.range count).erase place,
        (if other ∈ visited ++ [place] then 0 else (next other).length) =
          if other ∈ visited then 0 else (next other).length := by
      intro other among
      have different : other ≠ place := (Finset.mem_erase.1 among).1
      simp [different]
    rw [Finset.sum_congr rfl others]
    simp only [List.mem_append, List.mem_singleton, or_true, if_true, unvisited, if_false]
    omega
  · rw [outside place (by omega), List.length_nil, Nat.add_zero]
    refine Finset.sum_congr rfl fun other among => ?_
    have different : other ≠ place := by
      have := Finset.mem_range.1 among
      omega
    simp [different]

/-- Every place found was visited before or is reached from a pending one. -/
theorem reaches_of_mem_search (next : Nat → List Nat) (budget : Nat) (pending visited : List Nat)
    {place : Nat} (found : place ∈ search next budget pending visited) :
    place ∈ visited ∨
      ∃ start ∈ pending, Relation.ReflTransGen (fun source target => target ∈ next source)
        start place := by
  induction budget generalizing pending visited with
  | zero => exact .inl found
  | succ budget ih =>
    cases pending with
    | nil => exact .inl found
    | cons first others =>
      rw [search] at found
      split at found
      · rcases ih _ _ found with known | ⟨start, member, reaches⟩
        · exact .inl known
        · exact .inr ⟨start, List.mem_cons_of_mem _ member, reaches⟩
      · rcases ih _ _ found with known | ⟨start, member, reaches⟩
        · rcases List.mem_append.1 known with old | new
          · exact .inl old
          · rw [List.mem_singleton.1 new]
            exact .inr ⟨first, List.mem_cons_self, .refl⟩
        · rcases List.mem_append.1 member with after | other
          · exact .inr ⟨first, List.mem_cons_self, .head after reaches⟩
          · exact .inr ⟨start, List.mem_cons_of_mem _ other, reaches⟩

/-- What follows the visited places is visited or pending. -/
def Covered (next : Nat → List Nat) (pending visited : List Nat) : Prop :=
  ∀ place ∈ visited, ∀ target ∈ next place, target ∈ visited ∨ target ∈ pending

/-- A visited place need not be pending. -/
theorem Covered.skip {next : Nat → List Nat} {first : Nat} {others visited : List Nat}
    (covered : Covered next (first :: others) visited) (known : first ∈ visited) :
    Covered next others visited := by
  intro place found target follows
  rcases covered place found target follows with old | waiting
  · exact .inl old
  · rcases List.mem_cons.1 waiting with rfl | other
    · exact .inl known
    · exact .inr other

/-- A visit makes pending what follows the visited place. -/
theorem Covered.visit {next : Nat → List Nat} {first : Nat} {others visited : List Nat}
    (covered : Covered next (first :: others) visited) :
    Covered next (next first ++ others) (visited ++ [first]) := by
  intro place found target follows
  rcases List.mem_append.1 found with old | new
  · rcases covered place old target follows with before | waiting
    · exact .inl (List.mem_append_left _ before)
    · rcases List.mem_cons.1 waiting with rfl | other
      · exact .inl (List.mem_append_right _ (List.mem_singleton_self _))
      · exact .inr (List.mem_append_right _ other)
  · rw [List.mem_singleton.1 new] at follows
    exact .inr (List.mem_append_left _ follows)

/-- A search without a budget that comes to its end: from pending and visited places to all that are
visited in the end. -/
inductive Searches (next : Nat → List Nat) : List Nat → List Nat → List Nat → Prop
  | done (visited : List Nat) : Searches next [] visited visited
  | skip {place : Nat} {pending visited found : List Nat} (known : place ∈ visited)
    (rest : Searches next pending visited found) : Searches next (place :: pending) visited found
  | visit {place : Nat} {pending visited found : List Nat} (new : place ∉ visited)
    (rest : Searches next (next place ++ pending) (visited ++ [place]) found) :
    Searches next (place :: pending) visited found

/-- A budget that covers the pending places and the edges ahead is enough for a search to come to
its end. -/
theorem searches_search (next : Nat → List Nat) (count : Nat)
    (outside : ∀ place, count ≤ place → next place = []) (budget : Nat)
    (pending visited : List Nat)
    (enough : pending.length + edgesAhead next count visited ≤ budget) :
    Searches next pending visited (search next budget pending visited) := by
  induction budget generalizing pending visited with
  | zero =>
    obtain rfl : pending = [] := List.length_eq_zero_iff.1 (by omega)
    exact .done visited
  | succ budget ih =>
    cases pending with
    | nil => exact .done visited
    | cons first others =>
      rw [List.length_cons] at enough
      rw [search]
      split
      next known => exact .skip (by simpa using known) (ih others visited (by omega))
      next unknown =>
        have unvisited : first ∉ visited := by simpa using unknown
        have visit := edgesAhead_visit next count visited first outside unvisited
        exact .visit unvisited (ih _ _ (by rw [List.length_append]; omega))

namespace Searches

variable {next : Nat → List Nat} {pending visited found : List Nat}

/-- What was visited before is among what is visited in the end. -/
theorem subset (searches : Searches next pending visited found) : visited ⊆ found := by
  induction searches with
  | done => exact List.Subset.refl _
  | skip _ _ ih => exact ih
  | visit _ _ ih => exact List.Subset.trans (List.subset_append_left _ _) ih

/-- A search that comes to its end finds the pending places, and with a place those that follow
it. -/
theorem closed (searches : Searches next pending visited found)
    (covered : Covered next pending visited) :
    (∀ place ∈ pending, place ∈ found) ∧
      ∀ place ∈ found, ∀ target ∈ next place, target ∈ found := by
  induction searches with
  | done visited =>
    refine ⟨nofun, fun place member target follows => ?_⟩
    simpa using covered place member target follows
  | @skip first others visited found known rest ih =>
    obtain ⟨finds, closed⟩ := ih (covered.skip known)
    refine ⟨fun place member => ?_, closed⟩
    rcases List.mem_cons.1 member with rfl | other
    · exact rest.subset known
    · exact finds place other
  | @visit first others visited found new rest ih =>
    obtain ⟨finds, closed⟩ := ih covered.visit
    refine ⟨fun place member => ?_, closed⟩
    rcases List.mem_cons.1 member with rfl | other
    · exact rest.subset (List.mem_append_right _ (List.mem_singleton_self _))
    · exact finds place (List.mem_append_right _ other)

end Searches

/-- Control may go on from a place that lets it through to a successor of the place. -/
def Passes (passes : Nat → Bool) (successors : List (List Nat)) (source target : Nat) : Prop :=
  passes source = true ∧ target ∈ (successors[source]?).getD []

/-- The items of rows are as many as those of each row together. -/
theorem sum_range_length {α : Type} (rows : List (List α)) :
    ∑ index ∈ Finset.range rows.length, ((rows[index]?).getD []).length = rows.flatten.length := by
  induction rows with
  | nil => rfl
  | cons row rows ih =>
    rw [List.length_cons, Finset.sum_range_succ', List.flatten_cons, List.length_append, ← ih,
      Nat.add_comm]
    rfl

/-- The edges that leave places which let control through are among all edges. -/
theorem edgesAhead_le (passes : Nat → Bool) (successors : List (List Nat)) :
    edgesAhead (fun place => if passes place then (successors[place]?).getD [] else [])
      successors.length [] ≤ successors.flatten.length := by
  rw [← sum_range_length]
  refine Finset.sum_le_sum fun place _ => ?_
  by_cases through : passes place = true
  · cases found : successors[place]? <;> simp [through, found]
  · simp [through]

/-- The places to go on to from a place, if it lets control through. -/
def onward (passes : Nat → Bool) (successors : List (List Nat)) (place : Nat) : List Nat :=
  if passes place then (successors[place]?).getD [] else []

/-- The budget is enough for the search to come to its end. -/
theorem searches_reachedThrough (passes : Nat → Bool) (successors : List (List Nat))
    (start : List Nat) :
    Searches (onward passes successors) start [] (reachedThrough passes successors start) := by
  have outside (place : Nat) (beyond : successors.length ≤ place) :
      onward passes successors place = [] := by
    simp [onward, List.getElem?_eq_none beyond]
  exact searches_search (onward passes successors) successors.length outside _ start []
    (Nat.add_le_add_left (edgesAhead_le passes successors) _)

/-- A place is found exactly when it is reached from a starting place through places that let
control through. -/
theorem mem_reachedThrough_iff (passes : Nat → Bool) (successors : List (List Nat))
    (start : List Nat) (place : Nat) :
    place ∈ reachedThrough passes successors start ↔
      ∃ first ∈ start, Relation.ReflTransGen (Passes passes successors) first place := by
  have follows (source target : Nat) :
      target ∈ onward passes successors source ↔ Passes passes successors source target := by
    rw [onward, Passes]
    by_cases through : passes source = true <;> simp [through]
  have relation : (fun source target => target ∈ onward passes successors source) =
      Passes passes successors := by
    funext source target
    exact propext (follows source target)
  constructor
  · intro found
    rcases reaches_of_mem_search (onward passes successors) _ start [] found with old | reached
    · cases old
    · rwa [relation] at reached
  · rintro ⟨first, member, reaches⟩
    obtain ⟨finds, closed⟩ :=
      (searches_reachedThrough passes successors start).closed (by simp [Covered])
    induction reaches with
    | refl => exact finds first member
    | tail _ last ih => exact closed _ ih _ ((follows _ _).2 last)

end Midend
