/-!
# Lists of facts

Data-flow facts are kept in lists whose order does not matter. Two facts are the same when `==` says
so, which need not be equality. Every operation keeps the facts in the order in which it meets
them.
-/

namespace Midend.Facts

variable {φ : Type} [BEq φ]

/-- Whether a fact is among others. -/
def has (facts : List φ) (fact : φ) : Bool :=
  facts.any (· == fact)

/-- Adds facts one after the other, each unless it is there already. -/
def addAll (facts : List φ) (more : List φ) : List φ :=
  more.foldl (fun facts fact => if has facts fact then facts else facts ++ [fact]) facts

/-- `union` — the facts of two lists, each once. -/
def union (left right : List φ) : List φ :=
  addAll (addAll [] left) right

/-- `filter` — the facts of one list that are not in another. -/
def without (facts removed : List φ) : List φ :=
  facts.filter fun fact => !removed.any (fact == ·)

/-- `intersection` — the facts of the first list that are in all the others, each once; of no lists,
none. -/
def intersection : List (List φ) → List φ
  | [] => []
  | first :: others =>
    (union first []).filter fun fact => others.all fun facts => facts.any (fact == ·)

/-- `union_all` — the facts of all lists, each once. -/
def unions (lists : List (List φ)) : List φ :=
  lists.foldl union []

/-- `same_facts` — whether two lists without repetitions hold the same facts. -/
def same (left right : List φ) : Bool :=
  left.length == right.length && left.all fun fact => right.any (fact == ·)

/-- Adding facts makes no others present than those added. -/
theorem has_addAll [EquivBEq φ] (facts more : List φ) (fact : φ) :
    has (addAll facts more) fact = (has facts fact || has more fact) := by
  induction more generalizing facts with
  | nil => simp [addAll, has]
  | cons first others ih =>
    have tail : has (addAll (if has facts first then facts else facts ++ [first]) others) fact
        = (has (if has facts first then facts else facts ++ [first]) fact || has others fact) :=
      ih _
    rw [addAll, List.foldl_cons, ← addAll, tail]
    by_cases known : has facts first = true
    · have same : (first == fact) = true → has facts fact = true := by
        intro equal
        obtain ⟨other, member, found⟩ := List.any_eq_true.1 known
        exact List.any_eq_true.2 ⟨other, member, BEq.trans found equal⟩
      cases equal : first == fact <;> simp_all [has]
    · rw [if_neg known]
      simp [has, Bool.or_assoc]

/-- The union holds exactly the facts of both lists. -/
theorem has_union [EquivBEq φ] (left right : List φ) (fact : φ) :
    has (union left right) fact = (has left fact || has right fact) := by
  rw [union, has_addAll, has_addAll]
  simp [has]

end Midend.Facts
