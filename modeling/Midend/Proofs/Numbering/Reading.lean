import Midend.Proofs.Numbering.Meaning

/-!
# Reading variables

Reading numbers the variables that were not met before and leaves everything else as it was. Since
a variable and the preferred variable of its value have one number, reading the preferred ones gives
the same numbers and the same pool.
-/

namespace Midend

open Lang

/-- A table that finds every expression that it holds and that equals itself under its number, and
holds unknown values under their own. -/
structure Table.Faithful (table : Table) : Prop where
  find?_of_expr? : ∀ expr number, expr.equals expr = true → table.expr? number = some expr →
    table.find? expr = some number
  unknown_eq : ∀ number other, table.expr? number = some (.unknown other) → other = number

namespace Table

/-- The empty table is faithful. -/
theorem faithful_empty : Faithful {} := by
  constructor <;> simp [expr?]

/-- A table stays faithful when an expression is added that it does not find. -/
theorem Faithful.append {table : Table} (faithful : table.Faithful) {expr : Expr}
    (new : table.find? expr = none) (own : ∀ other, expr = .unknown other → other = table.size) :
    (table.append expr).Faithful := by
  constructor
  · intro other number reflexive found
    rw [expr?_append] at found
    rw [find?_append]
    split at found
    next newest => rw [if_pos ⟨Option.some.inj found, reflexive⟩, newest]
    next =>
      have known := faithful.find?_of_expr? other number reflexive found
      have different : expr ≠ other := by
        rintro rfl
        rw [new] at known
        cases known
      rw [if_neg fun same => different same.1, known]
  · intro number other found
    rw [expr?_append] at found
    split at found
    next newest =>
      rw [newest]
      exact own other (Option.some.inj found)
    next => exact faithful.unknown_eq number other found

/-- The unknown value of the next number has no number yet. -/
theorem Faithful.find?_unknown_size {table : Table} (faithful : table.Faithful)
    (indexed : table.Indexed) : table.find? (.unknown table.size) = none := by
  cases known : table.find? (.unknown table.size) with
  | none => rfl
  | some number =>
    have found := indexed.expr?_of_find? _ _ known
    have bound := lt_size_of_expr? found
    rw [← faithful.unknown_eq number _ found] at bound
    exact absurd bound (Nat.lt_irrefl _)

end Table

namespace Pool

/-- A consistent pool with a faithful table. -/
structure Sound (pool : Pool) : Prop where
  consistent : pool.Consistent
  faithful : pool.table.Faithful

/-- The empty pool is sound. -/
theorem sound_empty : Sound {} :=
  ⟨consistent_empty, Table.faithful_empty⟩

/-- Assigning a number handed out before keeps a pool sound. -/
theorem Sound.assign {pool : Pool} (sound : pool.Sound) (name : String) {number : Nat}
    (bound : number < pool.table.size) : (pool.assign name number).Sound := by
  refine ⟨sound.consistent.assign name bound, ?_⟩
  rw [table_assign]
  exact sound.faithful

/-- A fresh number keeps a pool sound. -/
theorem Sound.fresh {pool : Pool} (sound : pool.Sound) : pool.fresh.2.Sound := by
  have new := sound.faithful.find?_unknown_size sound.consistent.table
  exact ⟨sound.consistent.fresh,
    sound.faithful.append new fun other same => (Expr.unknown.inj same).symm⟩

/-- Interning a known value over old numbers keeps a pool sound. -/
theorem Sound.intern {pool : Pool} (sound : pool.Sound) {expr : Expr}
    (admitted : pool.table.Admits expr) (known : ∀ number, expr ≠ .unknown number) :
    (pool.intern expr).2.Sound := by
  refine ⟨sound.consistent.intern admitted, ?_⟩
  unfold Pool.intern Table.intern
  cases found : pool.table.find? expr with
  | some number => exact sound.faithful
  | none => exact sound.faithful.append found fun other same => absurd same (known other)

/-- Interning an expression that equals itself and has a number gives that number. -/
theorem Sound.intern_eq {pool : Pool} (sound : pool.Sound) {expr : Expr} {number : Nat}
    (reflexive : expr.equals expr = true) (found : pool.table.expr? number = some expr) :
    pool.intern expr = (number, pool) := by
  rw [Pool.intern, Table.intern, sound.faithful.find?_of_expr? expr number reflexive found]

/-- The number of an expression has that expression. -/
theorem Consistent.expr?_intern {pool : Pool} (consistent : pool.Consistent) (expr : Expr) :
    (pool.intern expr).2.table.expr? (pool.intern expr).1 = some expr := by
  unfold Pool.intern Table.intern
  cases found : pool.table.find? expr with
  | some number => exact consistent.table.expr?_of_find? expr number found
  | none => simp [Table.expr?_append]

/-- A number that a variable has is held by a variable, which is then the preferred one. -/
theorem Consistent.standIn?_eq_preferred {pool : Pool} (consistent : pool.Consistent)
    {name : String} {number : Nat} (known : pool.numbers[name]? = some number) :
    pool.standIn? number = some (pool.preferred name) ∧
      pool.numbers[pool.preferred name]? = some number := by
  have holds := (consistent.mem_holdersOf name number).2 known
  obtain ⟨holder, others, listed⟩ := List.exists_cons_of_ne_nil (List.ne_nil_of_mem holds)
  have standIn : pool.standIn? number = some holder := by rw [standIn?, listed, List.head?_cons]
  have preferred : pool.preferred name = holder := by
    rw [Pool.preferred, known, Option.bind_some, standIn, Option.getD_some]
  rw [preferred]
  exact ⟨standIn, (consistent.mem_holdersOf holder number).1 (by simp [listed])⟩

/-- A preferred variable is preferred to no other. -/
theorem Consistent.preferred_preferred {pool : Pool} (consistent : pool.Consistent)
    (name : String) : pool.preferred (pool.preferred name) = pool.preferred name := by
  cases known : pool.numbers[name]? with
  | none =>
    have own : pool.preferred name = name := by
      rw [preferred, known, Option.bind_none, Option.getD_none]
    rw [own, own]
  | some number =>
    obtain ⟨standIn, knownToo⟩ := consistent.standIn?_eq_preferred known
    rw [preferred, knownToo, Option.bind_some, standIn, Option.getD_some]

/-- A sound pool made from another by reading variables: what was known before is as it was, and of
what is new nothing is known. -/
structure ReadsOn (before after : Pool) : Prop where
  sound : after.Sound
  size_le : before.table.size ≤ after.table.size
  numbers_eq : ∀ (name : String) (number : Nat), before.numbers[name]? = some number →
    after.numbers[name]? = some number
  holdersOf_eq : ∀ number < before.table.size, after.holdersOf number = before.holdersOf number
  expr?_cases : ∀ number expr, after.table.expr? number = some expr →
    (∃ other, expr = .unknown other) ∨ before.table.expr? number = some expr

/-- Reading nothing changes nothing. -/
theorem Sound.readsOn {pool : Pool} (sound : pool.Sound) : pool.ReadsOn pool :=
  ⟨sound, Nat.le_refl _, fun _ _ => id, fun _ _ => rfl, fun _ _ => .inr⟩

/-- Reading on after reading is reading. -/
theorem ReadsOn.trans {first second third : Pool} (one : first.ReadsOn second)
    (other : second.ReadsOn third) : first.ReadsOn third where
  sound := other.sound
  size_le := Nat.le_trans one.size_le other.size_le
  numbers_eq name number known := other.numbers_eq name number (one.numbers_eq name number known)
  holdersOf_eq number bound := by
    rw [other.holdersOf_eq number (Nat.lt_of_lt_of_le bound one.size_le),
      one.holdersOf_eq number bound]
  expr?_cases number expr found := by
    rcases other.expr?_cases number expr found with unknown | before
    · exact .inl unknown
    · exact one.expr?_cases number expr before

/-- A variable that has a number is read without a change. -/
theorem read_of_known {pool : Pool} {name : String} {number : Nat}
    (known : pool.numbers[name]? = some number) : pool.read name = (number, pool) := by
  rw [read, known]

/-- A variable that has no number is given a fresh one. -/
theorem read_of_new {pool : Pool} {name : String} (new : pool.numbers[name]? = none) :
    pool.read name = (pool.table.size, pool.fresh.2.assign name pool.table.size) := by
  rw [read, new]
  rfl

/-- Reading a variable leaves the others as they were. -/
theorem Sound.readsOn_read {pool : Pool} (sound : pool.Sound) (name : String) :
    pool.ReadsOn (pool.read name).2 ∧ (pool.read name).1 < (pool.read name).2.table.size ∧
      (pool.read name).2.numbers[name]? = some (pool.read name).1 := by
  cases known : pool.numbers[name]? with
  | some number =>
    rw [read_of_known known]
    exact ⟨sound.readsOn, sound.consistent.number_lt name number known, known⟩
  | none =>
    have next : pool.fresh.2.table = pool.table.append (.unknown pool.table.size) := rfl
    have bound : pool.table.size < pool.fresh.2.table.size := by simp [next]
    rw [read_of_new known]
    refine ⟨⟨sound.fresh.assign name bound, ?_, ?_, ?_, ?_⟩, ?_, ?_⟩
    · rw [table_assign]
      exact Nat.le_of_lt bound
    · intro other number has
      have different : other ≠ name := by
        rintro rfl
        rw [known] at has
        cases has
      rw [numbers_assign, if_neg different]
      exact has
    · intro number old
      have absent : name ∉ pool.holdersOf number := fun member => by
        rw [sound.consistent.mem_holdersOf, known] at member
        cases member
      rw [holdersOf_assign _ sound.fresh.consistent, if_neg (Nat.ne_of_lt old), List.append_nil]
      exact List.filter_eq_self.2 fun holder member =>
        bne_iff_ne.2 fun same => absent (same ▸ member)
    · intro number expr found
      rw [table_assign, next, Table.expr?_append] at found
      split at found
      · exact .inl ⟨_, (Option.some.inj found).symm⟩
      · exact .inr found
    · rwa [table_assign]
    · rw [numbers_assign, if_pos rfl]

/-- Reading variables leaves the others as they were. -/
theorem Sound.readsOn_readAll {pool : Pool} (sound : pool.Sound) (names : List String) :
    pool.ReadsOn (pool.readAll names).2 ∧
      ∀ number ∈ (pool.readAll names).1, number < (pool.readAll names).2.table.size := by
  induction names generalizing pool with
  | nil => exact ⟨sound.readsOn, nofun⟩
  | cons name names ih =>
    obtain ⟨first, bound, -⟩ := sound.readsOn_read name
    obtain ⟨others, bounds⟩ := ih first.sound
    refine ⟨first.trans others, fun number member => ?_⟩
    rcases List.mem_cons.1 member with rfl | later
    · exact Nat.lt_of_lt_of_le bound others.size_le
    · exact bounds number later

/-- Nothing new was read when all numbers are old. -/
theorem readAll_of_lt {pool after : Pool} {names : List String} {numbers : List Nat}
    (read : pool.readAll names = (numbers, after))
    (old : ∀ number ∈ numbers, number < pool.table.size) : after = pool := by
  induction names generalizing numbers with
  | nil => exact (Prod.mk.inj read).2.symm
  | cons name names ih =>
    rw [readAll_cons] at read
    cases known : pool.numbers[name]? with
    | none =>
      rw [read_of_new known] at read
      obtain ⟨rfl, -⟩ := Prod.mk.inj read
      exact absurd (old _ List.mem_cons_self) (Nat.lt_irrefl _)
    | some number =>
      rw [read_of_known known] at read
      obtain ⟨rfl, last⟩ := Prod.mk.inj read
      exact ih (Prod.ext rfl last) fun other member => old other (List.mem_cons_of_mem _ member)

/-- A variable may be read from the one that is preferred after further reading. -/
theorem Sound.read_preferred {pool after : Pool} (sound : pool.Sound) (name : String)
    (reads : (pool.read name).2.ReadsOn after) :
    pool.read (after.preferred name) = pool.read name := by
  obtain ⟨first, bound, knows⟩ := sound.readsOn_read name
  have kept : after.preferred name = (pool.read name).2.preferred name := by
    rw [preferred, preferred, reads.numbers_eq name _ knows, knows, Option.bind_some,
      Option.bind_some, standIn?, standIn?, reads.holdersOf_eq _ bound]
  rw [kept]
  cases known : pool.numbers[name]? with
  | some number =>
    rw [read_of_known known, read_of_known (sound.consistent.standIn?_eq_preferred known).2]
  | none =>
    -- A fresh number is held by the variable that was read and by no other.
    rw [read_of_new known] at knows ⊢
    have holders := holdersOf_assign _ sound.fresh.consistent name pool.table.size pool.table.size
    have unheld : pool.fresh.2.holdersOf pool.table.size = [] :=
      List.head?_eq_none_iff.1 sound.consistent.standIn?_size
    rw [unheld, if_pos rfl, List.filter_nil, List.nil_append] at holders
    have own : (pool.fresh.2.assign name pool.table.size).preferred name = name := by
      rw [preferred, knows, Option.bind_some, standIn?, holders]
      rfl
    rw [own, read_of_new known]

/-- Variables may be read from those that are preferred after further reading. -/
theorem Sound.readAll_map_preferred {pool after : Pool} (sound : pool.Sound) (names : List String)
    (reads : (pool.readAll names).2.ReadsOn after) :
    pool.readAll (names.map after.preferred) = pool.readAll names := by
  induction names generalizing pool with
  | nil => rfl
  | cons name names ih =>
    obtain ⟨first, -, -⟩ := sound.readsOn_read name
    have others := (first.sound.readsOn_readAll names).1.trans reads
    have later := ih first.sound reads
    rw [List.map_cons, readAll_cons, readAll_cons, sound.read_preferred name others, later]

end Pool

end Midend
