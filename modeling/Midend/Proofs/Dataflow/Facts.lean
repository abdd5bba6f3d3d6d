import Midend.Dataflow.Machine
import Mathlib.Data.List.Nodup
import Mathlib.Data.List.Perm.Subperm
import Mathlib.Data.Quot

/-!
# Facts as sets

When facts are compared by an equivalence, the operations on lists of facts are those on sets of
equivalence classes, and lists without repetitions hold the same facts exactly when each fact of the
one is present in the other.
-/

namespace Midend.Facts

variable {φ : Type} [BEq φ]

/-- Facts are looked up by equality, if they are compared by it. -/
theorem has_iff [LawfulBEq φ] (facts : List φ) (fact : φ) :
    has facts fact = true ↔ fact ∈ facts := by
  simp [has]

/-- Adding facts makes a list of those that were there and those added. -/
theorem mem_addAll_iff [LawfulBEq φ] (facts more : List φ) (fact : φ) :
    fact ∈ addAll facts more ↔ fact ∈ facts ∨ fact ∈ more := by
  rw [← has_iff, has_addAll, Bool.or_eq_true, has_iff, has_iff]

/-- The facts that a test keeps are those present that pass it, if it does not tell apart facts that
are the same. -/
theorem has_filter (facts : List φ) {test : φ → Bool}
    (blind : ∀ fact other, (fact == other) = true → test fact = test other) (fact : φ) :
    has (facts.filter test) fact = (has facts fact && test fact) := by
  rw [Bool.eq_iff_iff, Bool.and_eq_true, has, has, List.any_eq_true, List.any_eq_true]
  constructor
  · rintro ⟨other, member, same⟩
    obtain ⟨present, passes⟩ := List.mem_filter.1 member
    exact ⟨⟨other, present, same⟩, by rwa [← blind other fact same]⟩
  · rintro ⟨⟨other, present, same⟩, passes⟩
    exact ⟨other, List.mem_filter.2 ⟨present, by rwa [blind other fact same]⟩, same⟩

/-- No two facts of a list are the same. -/
def Distinct (facts : List φ) : Prop :=
  facts.Pairwise fun fact other => (fact == other) = false

/-- Adding facts repeats none. -/
theorem distinct_addAll (facts more : List φ) (distinct : Distinct facts) :
    Distinct (addAll facts more) := by
  induction more generalizing facts with
  | nil => exact distinct
  | cons first others ih =>
    rw [addAll, List.foldl_cons, ← addAll]
    refine ih _ ?_
    split
    · exact distinct
    next absent =>
      refine List.pairwise_append.2 ⟨distinct, List.pairwise_singleton _ _, ?_⟩
      intro known member other isFirst
      rw [List.mem_singleton.1 isFirst, ← Bool.not_eq_true]
      exact fun same => absent (List.any_eq_true.2 ⟨known, member, same⟩)

/-- A union repeats no fact. -/
theorem distinct_union (left right : List φ) : Distinct (union left right) :=
  distinct_addAll _ _ (distinct_addAll _ _ .nil)

/-- The union of several lists repeats no fact. -/
theorem distinct_unions (lists : List (List φ)) : Distinct (unions lists) := by
  have accumulated (before : List φ) (distinct : Distinct before) :
      Distinct (lists.foldl union before) := by
    induction lists generalizing before with
    | nil => exact distinct
    | cons first others ih => exact ih _ (distinct_union before first)
  exact accumulated [] .nil

/-- Taking facts away repeats none. -/
theorem distinct_without (facts removed : List φ) (distinct : Distinct facts) :
    Distinct (without facts removed) :=
  distinct.filter _

variable [EquivBEq φ]

/-- Facts that are the same are present together. -/
theorem has_congr (facts : List φ) {fact other : φ} (same : (fact == other) = true) :
    has facts fact = has facts other := by
  have alike (known : φ) : (known == fact) = (known == other) := by
    rw [Bool.eq_iff_iff]
    exact ⟨fun equal => BEq.trans equal same, fun equal => BEq.trans equal (BEq.symm same)⟩
  simp only [has, alike]

/-- The members of a list are present. -/
theorem has_of_mem {facts : List φ} {fact : φ} (member : fact ∈ facts) : has facts fact = true :=
  List.any_eq_true.2 ⟨fact, member, BEq.rfl⟩

/-- A fact is found from either side of a comparison. -/
theorem any_beq_eq_has (facts : List φ) (fact : φ) : facts.any (fact == ·) = has facts fact := by
  have turned (known : φ) : (fact == known) = (known == fact) := by
    rw [Bool.eq_iff_iff]
    exact ⟨BEq.symm, BEq.symm⟩
  simp only [has, turned]

/-- The facts that are left are those present that are not taken away. -/
theorem has_without (facts removed : List φ) (fact : φ) :
    has (without facts removed) fact = (has facts fact && !has removed fact) := by
  rw [without]
  simp only [any_beq_eq_has]
  exact has_filter facts (fun first second same => by rw [has_congr removed same]) fact

/-- The union of several lists holds the facts of each. -/
theorem has_unions (lists : List (List φ)) (fact : φ) :
    has (unions lists) fact = lists.any fun facts => has facts fact := by
  have accumulated (before : List φ) : has (lists.foldl union before) fact =
      (has before fact || lists.any fun facts => has facts fact) := by
    induction lists generalizing before with
    | nil => simp
    | cons first others ih => rw [List.foldl_cons, ih, has_union, List.any_cons, Bool.or_assoc]
  rw [unions, accumulated]
  rfl

/-- The intersection of several lists holds the facts that all of them hold. -/
theorem has_intersection {lists : List (List φ)} (nonempty : lists ≠ []) (fact : φ) :
    has (intersection lists) fact = lists.all fun facts => has facts fact := by
  cases lists with
  | nil => exact absurd rfl nonempty
  | cons first others =>
    simp only [intersection, any_beq_eq_has]
    rw [has_filter _ fun fact other same => by simp only [has_congr _ same], has_union,
      List.all_cons]
    simp [has]

/-- Facts that are the same, as an equivalence. -/
def sameness (φ : Type) [BEq φ] [EquivBEq φ] : Setoid φ where
  r fact other := (fact == other) = true
  iseqv := ⟨fun _ => BEq.rfl, BEq.symm, BEq.trans⟩

/-- The equivalence classes of facts. -/
def classes (facts : List φ) : List (Quotient (sameness φ)) :=
  facts.map (Quotient.mk (sameness φ))

/-- A fact is present exactly when its class is among the classes. -/
theorem mk_mem_classes_iff (facts : List φ) (fact : φ) :
    Quotient.mk (sameness φ) fact ∈ classes facts ↔ has facts fact = true := by
  rw [classes, List.mem_map, has, List.any_eq_true]
  exact exists_congr fun other => and_congr_right fun _ => Quotient.eq

/-- Distinct facts have distinct classes. -/
theorem Distinct.nodup_classes {facts : List φ} (distinct : Distinct facts) :
    (classes facts).Nodup := by
  refine List.Pairwise.map _ (fun fact other different same => ?_) distinct
  have equal : (fact == other) = true := Quotient.eq.1 same
  rw [different] at equal
  cases equal

/-- Facts that are present elsewhere have their classes there. -/
theorem classes_subset {left right : List φ}
    (covered : ∀ fact, has left fact = true → has right fact = true) :
    classes left ⊆ classes right := by
  intro kind member
  obtain ⟨fact, present, rfl⟩ := List.mem_map.1 member
  exact (mk_mem_classes_iff right fact).2 (covered fact (has_of_mem present))

/-- Distinct facts are no more than the facts among which they are present. -/
theorem Distinct.length_le {left right : List φ} (distinct : Distinct left)
    (covered : ∀ fact, has left fact = true → has right fact = true) :
    left.length ≤ right.length := by
  simpa [classes] using distinct.nodup_classes.length_le_of_subset (classes_subset covered)

/-- Distinct facts that are as many as the facts among which they are present are all of them. -/
theorem Distinct.has_of_length_le {left right : List φ} (distinct : Distinct left)
    (covered : ∀ fact, has left fact = true → has right fact = true)
    (lengths : right.length ≤ left.length) {fact : φ} (present : has right fact = true) :
    has left fact = true := by
  rw [← mk_mem_classes_iff] at present ⊢
  have among := List.subperm_of_subset distinct.nodup_classes (classes_subset covered)
  have all := among.perm_of_length_le (by simpa [classes] using lengths)
  exact all.symm.subset present

/-- Distinct facts are fewer than others among which they are present and which hold one more. -/
theorem Distinct.length_lt {left right : List φ} (distinct : Distinct left)
    (covered : ∀ fact, has left fact = true → has right fact = true) {fact : φ}
    (present : has right fact = true) (absent : has left fact = false) :
    left.length < right.length := by
  by_contra atLeast
  rw [distinct.has_of_length_le covered (by omega) present] at absent
  cases absent

/-- Lists without repetitions hold the same facts exactly when the same facts are present. -/
theorem same_iff {left right : List φ} (distinct : Distinct left) (other : Distinct right) :
    same left right = true ↔ ∀ fact, has left fact = has right fact := by
  simp only [same, any_beq_eq_has, Bool.and_eq_true, beq_iff_eq, List.all_eq_true]
  constructor
  · rintro ⟨lengths, found⟩ fact
    have covered (fact : φ) (present : has left fact = true) : has right fact = true := by
      obtain ⟨known, member, same⟩ := List.any_eq_true.1 present
      rw [← has_congr right same]
      exact found known member
    rw [Bool.eq_iff_iff]
    exact ⟨covered fact, distinct.has_of_length_le covered (by omega)⟩
  · intro agree
    have forth := distinct.length_le fun fact present => (agree fact).symm.trans present
    have back := other.length_le fun fact present => (agree fact).trans present
    exact ⟨by omega, fun fact member => (agree fact).symm.trans (has_of_mem member)⟩

/-- Facts of which some turned, all towards the same answer, have become more when they turned to be
present, and fewer when they turned to be absent. -/
theorem Distinct.length_turned {answer : Bool} {left right : List φ} (distinct : Distinct left)
    (other : Distinct right) (turned : ∀ fact, has left fact = answer → has right fact = answer)
    (differs : same left right = false) :
    if answer then left.length < right.length else right.length < left.length := by
  obtain ⟨fact, different⟩ : ∃ fact, has left fact ≠ has right fact := by
    by_contra agree
    push Not at agree
    rw [(same_iff distinct other).2 agree] at differs
    cases differs
  have before : has left fact = !answer :=
    Bool.eq_not_of_ne fun given => different (given.trans (turned fact given).symm)
  have after : has right fact = answer := by
    rw [before] at different
    simpa using different.symm
  cases answer with
  | true => exact distinct.length_lt turned after before
  | false =>
    refine other.length_lt (fun known present => ?_) before after
    rw [← Bool.not_eq_false]
    intro absent
    rw [turned known absent] at present
    cases present

end Midend.Facts
