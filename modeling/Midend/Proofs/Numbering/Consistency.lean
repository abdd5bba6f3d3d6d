import Midend.Numbering.Simplify

/-!
# Consistency of pools

A pool that is built up by reading and assigning variables stays consistent: expressions are found
where they are, they refer back to older numbers, and a variable is a holder of exactly the number
that it has.
-/

namespace Midend

open Lang

/-- A table that finds expressions where they are, and whose expressions refer to numbers handed out
before them. -/
structure Table.Indexed (table : Table) : Prop where
  expr?_of_find? : ∀ expr number, table.find? expr = some number →
    table.expr? number = some expr
  operand_lt : ∀ number op operands, table.expr? number = some (.apply op operands) →
    ∀ operand ∈ operands, operand < number

/-- A pool whose table is indexed and whose two maps are inverse to each other. -/
structure Pool.Consistent (pool : Pool) : Prop where
  table : pool.table.Indexed
  number_lt : ∀ (name : String) (number : Nat), pool.numbers[name]? = some number →
    number < pool.table.size
  mem_holdersOf : ∀ (name : String) (number : Nat),
    name ∈ pool.holdersOf number ↔ pool.numbers[name]? = some number

/-- The expressions that may be given the next number of a table. -/
def Table.Admits (table : Table) : Expr → Prop
  | .apply _ operands => ∀ operand ∈ operands, operand < table.size
  | .unknown _ | .constant _ => True

namespace Table

/-- Numbers that have an expression have been handed out. -/
theorem lt_size_of_expr? {table : Table} {number : Nat} {expr : Expr}
    (found : table.expr? number = some expr) : number < table.size := by
  obtain ⟨bound, -⟩ := Array.getElem?_eq_some_iff.1 found
  exact bound

/-- An expression that is found equals itself. -/
theorem equals_self_of_find? {table : Table} {expr : Expr} {number : Nat}
    (found : table.find? expr = some number) : expr.equals expr = true := by
  rw [find?] at found
  split at found
  next reflexive => exact reflexive
  next => cases found

/-- The empty table is indexed. -/
theorem indexed_empty : Indexed {} := by
  constructor
  · intro expr number found
    simp [find?] at found
  · intro number op operands found
    simp [expr?] at found

/-- Adding an expression over old numbers keeps a table indexed. -/
theorem Indexed.append {table : Table} (indexed : table.Indexed) {expr : Expr}
    (admitted : table.Admits expr) : (table.append expr).Indexed := by
  constructor
  · intro other number found
    rw [find?_append] at found
    rw [expr?_append]
    split at found
    next same => rw [if_pos (Option.some.inj found).symm, same.1]
    next =>
      have known := indexed.expr?_of_find? other number found
      rw [if_neg (Nat.ne_of_lt (lt_size_of_expr? known)), known]
  · intro number op operands found operand member
    rw [expr?_append] at found
    by_cases newest : number = table.size
    · rw [if_pos newest, Option.some.injEq] at found
      subst found
      rw [newest]
      exact admitted operand member
    · rw [if_neg newest] at found
      exact indexed.operand_lt number op operands found operand member

end Table

namespace Pool

/-- A list of holders that is put down for a number counts for that number alone. -/
theorem holdersOf_insert (pool : Pool) (numbers : Std.TreeMap String Nat) (number : Nat)
    (names : List String) (other : Nat) :
    ({ pool with numbers, holders := pool.holders.insert number names } : Pool).holdersOf other =
      if other = number then names else pool.holdersOf other := by
  simp only [holdersOf, Std.TreeMap.getD_insert, Std.LawfulEqCmp.compare_eq_iff_eq]
  simp only [eq_comm]

/-- Releasing a variable takes away its number and no other. -/
theorem numbers_release (pool : Pool) (name other : String) :
    (pool.release name).numbers[other]? = if other = name then none else pool.numbers[other]? := by
  unfold release
  cases known : pool.numbers[name]? with
  | none =>
    by_cases same : other = name
    · rw [if_pos same, same, known]
    · rw [if_neg same]
  | some old =>
    simp only [Std.TreeMap.getElem?_erase, Std.LawfulEqCmp.compare_eq_iff_eq]
    simp only [eq_comm]

/-- Releasing a variable takes it out of the holders. -/
theorem holdersOf_release (pool : Pool) (consistent : pool.Consistent) (name : String)
    (number : Nat) :
    (pool.release name).holdersOf number = (pool.holdersOf number).filter (· != name) := by
  have absent (different : pool.numbers[name]? ≠ some number) :
      pool.holdersOf number = (pool.holdersOf number).filter (· != name) := by
    symm
    rw [List.filter_eq_self]
    intro holder member
    have holds := (consistent.mem_holdersOf holder number).1 member
    rw [bne_iff_ne]
    rintro rfl
    exact different holds
  unfold release
  cases known : pool.numbers[name]? with
  | none => exact absent (by simp [known])
  | some old =>
    rw [holdersOf_insert]
    by_cases same : number = old
    · rw [if_pos same, same]
    · rw [if_neg same]
      exact absent (by simpa [known] using Ne.symm same)

/-- An assigned variable has its new number, and the others keep theirs. -/
theorem numbers_assign (pool : Pool) (name : String) (number : Nat) (other : String) :
    (pool.assign name number).numbers[other]? =
      if other = name then some number else pool.numbers[other]? := by
  simp only [assign, Std.TreeMap.getElem?_insert, Std.LawfulEqCmp.compare_eq_iff_eq]
  by_cases same : other = name
  · rw [if_pos same, if_pos same.symm]
  · rw [if_neg same, if_neg (Ne.symm same), numbers_release, if_neg same]

/-- An assigned variable stands last among the holders of its new number and nowhere else. -/
theorem holdersOf_assign (pool : Pool) (consistent : pool.Consistent) (name : String)
    (number other : Nat) :
    (pool.assign name number).holdersOf other =
      (pool.holdersOf other).filter (· != name) ++ if other = number then [name] else [] := by
  rw [assign, holdersOf_insert]
  by_cases same : other = number
  · rw [if_pos same, if_pos same, holdersOf_release pool consistent, same]
  · rw [if_neg same, if_neg same, holdersOf_release pool consistent, List.append_nil]

/-- Assigning leaves the table alone. -/
@[simp] theorem table_assign (pool : Pool) (name : String) (number : Nat) :
    (pool.assign name number).table = pool.table := by
  unfold assign release
  split <;> rfl

/-- The empty pool is consistent. -/
theorem consistent_empty : Consistent {} := by
  constructor
  · exact Table.indexed_empty
  · intro name number found
    simp at found
  · intro name number
    simp [holdersOf]

/-- A table that was only added to keeps a pool consistent. -/
theorem Consistent.withTable {pool : Pool} (consistent : pool.Consistent) {table : Table}
    (indexed : table.Indexed) (grown : pool.table.size ≤ table.size) :
    ({ pool with table } : Pool).Consistent where
  table := indexed
  number_lt name number found := Nat.lt_of_lt_of_le (consistent.number_lt name number found) grown
  mem_holdersOf := consistent.mem_holdersOf

/-- Assigning a number handed out before keeps a pool consistent. -/
theorem Consistent.assign {pool : Pool} (consistent : pool.Consistent) (name : String)
    {number : Nat} (bound : number < pool.table.size) : (pool.assign name number).Consistent := by
  constructor
  · rw [table_assign]
    exact consistent.table
  · intro other found known
    rw [table_assign]
    rw [numbers_assign] at known
    by_cases same : other = name
    · rw [if_pos same, Option.some.injEq] at known
      rw [← known]
      exact bound
    · rw [if_neg same] at known
      exact consistent.number_lt other found known
  · intro other found
    rw [holdersOf_assign pool consistent, numbers_assign, List.mem_append, List.mem_filter,
      consistent.mem_holdersOf, bne_iff_ne]
    by_cases same : other = name
    · by_cases newest : found = number
      · simp [same, newest]
      · simp [same, newest, Ne.symm newest]
    · by_cases newest : found = number <;> simp [same, newest]

/-- A fresh number keeps a pool consistent. -/
theorem Consistent.fresh {pool : Pool} (consistent : pool.Consistent) :
    pool.fresh.2.Consistent :=
  consistent.withTable (consistent.table.append trivial) (by simp)

/-- Interning an expression over old numbers keeps a pool consistent. -/
theorem Consistent.intern {pool : Pool} (consistent : pool.Consistent) {expr : Expr}
    (admitted : pool.table.Admits expr) : (pool.intern expr).2.Consistent := by
  unfold Pool.intern Table.intern
  cases pool.table.find? expr with
  | some number => exact consistent
  | none => exact consistent.withTable (consistent.table.append admitted) (by simp)

/-- A number that has just been handed out has no holder. -/
theorem Consistent.standIn?_size {pool : Pool} (consistent : pool.Consistent) :
    pool.standIn? pool.table.size = none := by
  rw [standIn?, List.head?_eq_none_iff, List.eq_nil_iff_forall_not_mem]
  intro name member
  have holds := (consistent.mem_holdersOf name _).1 member
  exact Nat.lt_irrefl _ (consistent.number_lt name _ holds)

/-- A fresh number has neither a literal nor a holder. -/
theorem Consistent.fresh_unknown {pool : Pool} (consistent : pool.Consistent) :
    pool.fresh.2.table.literal? pool.fresh.1 = none ∧
      pool.fresh.2.standIn? pool.fresh.1 = none := by
  have found : pool.fresh.2.table.expr? pool.fresh.1 = some (.unknown pool.table.size) := by
    rw [Pool.fresh, Table.fresh, Table.expr?_append, if_pos rfl]
  exact ⟨by rw [Table.literal?, found], consistent.standIn?_size⟩

end Pool

end Midend
