import Mathlib.Data.List.Perm.Basic
import Mathlib.Data.Nat.Init
import Midend.Proofs.Numbering.Results

/-!
# What pools keep

While instructions are gone past, the table only grows, a variable keeps its number until it is
written, and the order in which variables came to hold a number stays the same between those that
are not written.
-/

namespace Midend

open Lang

/-- Of some variables, the one that has held a number longest. -/
def Pool.foremost? (pool : Pool) (names : List String) (number : Nat) : Option String :=
  (pool.holdersOf number).find? (· ∈ names)

/-- A pool after another, where some variables may have changed. -/
structure Pool.Keeps (changed : String → Prop) (before after : Pool) : Prop where
  expr?_eq : ∀ number expr, before.table.expr? number = some expr →
    after.table.expr? number = some expr
  numbers_eq : ∀ (name : String) (number : Nat), ¬changed name →
    before.numbers[name]? = some number → after.numbers[name]? = some number
  foremost?_eq : ∀ names number holder, (∀ name ∈ names, ¬changed name) →
    before.foremost? names number = some holder → after.foremost? names number = some holder

/-- Variables have numbers, one each. -/
abbrev Pool.Knows (pool : Pool) (names : List String) (numbers : List Nat) : Prop :=
  List.Forall₂ (fun (name : String) number => pool.numbers[name]? = some number) names numbers

/-- An expression added to a table leaves the others where they are. -/
theorem Table.expr?_append_of_some {table : Table} {number : Nat} {expr : Expr}
    (found : table.expr? number = some expr) (other : Expr) :
    (table.append other).expr? number = some expr := by
  rw [expr?_append, if_neg (Nat.ne_of_lt (lt_size_of_expr? found)), found]

namespace Pool

variable {options : Options} {pool next : Pool} {instr simplified : Instruction}
variable {changed others : String → Prop}

/-- The variable that has held a number longest among some holds it. -/
theorem mem_holdersOf_of_foremost? {names : List String} {number : Nat} {holder : String}
    (found : pool.foremost? names number = some holder) : holder ∈ pool.holdersOf number :=
  List.mem_of_find?_eq_some found

/-- A variable of some that has held a number longest of all has held it longest among these. -/
theorem foremost?_of_standIn? {names : List String} {number : Nat} {holder : String}
    (first : pool.standIn? number = some holder) (member : holder ∈ names) :
    pool.foremost? names number = some holder := by
  obtain ⟨rest, listed⟩ := List.head?_eq_some_iff.1 first
  rw [foremost?, listed]
  exact List.find?_cons_of_pos (decide_eq_true member)

/-- Assigning a variable that is not among some leaves the one in front of these. -/
theorem foremost?_assign_of_notMem (consistent : pool.Consistent) {names : List String}
    {name : String} (apart : name ∉ names) (number other : Nat) {holder : String}
    (found : pool.foremost? names other = some holder) :
    (pool.assign name number).foremost? names other = some holder := by
  -- The variable leaves the holders of its old number and joins those of the new one at the end.
  have filtered : ((pool.holdersOf other).filter (· != name)).find? (· ∈ names) =
      some holder := by
    rw [List.find?_filter, ← found, foremost?]
    congr 1
    funext candidate
    by_cases member : candidate ∈ names
    · have different : candidate ≠ name := fun same => apart (same ▸ member)
      simp [member, different]
    · simp [member]
  rw [foremost?, holdersOf_assign pool consistent, List.find?_append, filtered]
  rfl

namespace Keeps

/-- A pool keeps what it knows. -/
theorem refl (changed : String → Prop) (pool : Pool) : pool.Keeps changed pool :=
  ⟨fun _ _ => id, fun _ _ _ => id, fun _ _ _ _ => id⟩

/-- What is kept twice is kept. -/
theorem trans {first second third : Pool} (one : first.Keeps changed second)
    (other : second.Keeps changed third) : first.Keeps changed third where
  expr?_eq number expr found := other.expr?_eq number expr (one.expr?_eq number expr found)
  numbers_eq name number kept known :=
    other.numbers_eq name number kept (one.numbers_eq name number kept known)
  foremost?_eq names number holder kept found :=
    other.foremost?_eq names number holder kept (one.foremost?_eq names number holder kept found)

/-- What is kept while some variables change is kept while more may. -/
theorem mono {before after : Pool} (keeps : before.Keeps changed after)
    (within : ∀ name, changed name → others name) : before.Keeps others after where
  expr?_eq := keeps.expr?_eq
  numbers_eq name number kept :=
    keeps.numbers_eq name number fun change => kept (within name change)
  foremost?_eq names number holder kept :=
    keeps.foremost?_eq names number holder fun name member change =>
      kept name member (within name change)

/-- Variables that do not change keep their numbers. -/
theorem knows {before after : Pool} (keeps : before.Keeps changed after) {names : List String}
    {numbers : List Nat} (known : before.Knows names numbers)
    (kept : ∀ name ∈ names, ¬changed name) : after.Knows names numbers := by
  induction known with
  | nil => exact .nil
  | @cons name number names numbers first _ ih =>
    refine .cons (keeps.numbers_eq name number (kept name List.mem_cons_self) first) (ih ?_)
    exact fun other member => kept other (List.mem_cons_of_mem name member)

end Keeps

/-- A table that was only added to keeps everything. -/
theorem keeps_withTable (pool : Pool) {table : Table}
    (grown : ∀ number expr, pool.table.expr? number = some expr →
      table.expr? number = some expr) :
    pool.Keeps (fun _ => False) { pool with table } :=
  ⟨grown, fun _ _ _ => id, fun _ _ _ _ => id⟩

/-- A fresh number keeps everything. -/
theorem keeps_fresh (pool : Pool) : pool.Keeps (fun _ => False) pool.fresh.2 :=
  pool.keeps_withTable fun _ _ found => Table.expr?_append_of_some found _

/-- Interning keeps everything. -/
theorem keeps_intern (pool : Pool) (expr : Expr) :
    pool.Keeps (fun _ => False) (pool.intern expr).2 := by
  have grown : ∀ number other, pool.table.expr? number = some other →
      (pool.table.intern expr).2.expr? number = some other := by
    intro number other found
    unfold Table.intern
    split
    · exact found
    · exact Table.expr?_append_of_some found expr
  exact pool.keeps_withTable grown

/-- Assigning a variable keeps everything but that variable. -/
theorem Consistent.keeps_assign (consistent : pool.Consistent) (name : String) (number : Nat) :
    pool.Keeps (· = name) (pool.assign name number) where
  expr?_eq other expr found := by rwa [table_assign]
  numbers_eq other known different found := by rwa [numbers_assign, if_neg different]
  foremost?_eq names other holder apart found :=
    foremost?_assign_of_notMem consistent (fun member => apart name member rfl) number other found

/-- Reading a variable keeps everything. -/
theorem Sound.keeps_read (sound : pool.Sound) (name : String) :
    pool.Keeps (fun _ => False) (pool.read name).2 := by
  have reads := (sound.readsOn_read name).1
  refine ⟨?_, fun other number _ => reads.numbers_eq other number, ?_⟩
  · intro number expr found
    cases known : pool.numbers[name]? with
    | some _ => rwa [read_of_known known]
    | none =>
      rw [read_of_new known, table_assign]
      exact Table.expr?_append_of_some found _
  -- Only the holders of a number that is new with the reading can be others.
  · intro names number holder _ found
    have holds :=
      (sound.consistent.mem_holdersOf holder number).1 (mem_holdersOf_of_foremost? found)
    rwa [foremost?, reads.holdersOf_eq number (sound.consistent.number_lt holder number holds)]

/-- Reading variables keeps everything. -/
theorem Sound.keeps_readAll (sound : pool.Sound) (names : List String) :
    pool.Keeps (fun _ => False) (pool.readAll names).2 := by
  induction names generalizing pool with
  | nil => exact .refl _ pool
  | cons name names ih =>
    rw [readAll_cons]
    exact (sound.keeps_read name).trans (ih (sound.readsOn_read name).1.sound)

/-- Numbering a result keeps everything. -/
theorem keeps_resultNumber (pool : Pool) (options : Options) (operands : List Nat)
    (instr : Instruction) :
    pool.Keeps (fun _ => False) (pool.resultNumber options operands instr).2 := by
  rcases pool.cases_of_resultNumber options operands instr with
    ⟨literal, -, same⟩ | ⟨operand, -, same⟩ | ⟨op, same⟩ | same
  all_goals rw [same]
  · exact pool.keeps_intern _
  · exact .refl _ pool
  · exact pool.keeps_intern _
  · exact pool.keeps_fresh

/-- A step keeps everything but the variable that the instruction writes. -/
theorem Sound.keeps_step (sound : pool.Sound)
    (stepped : pool.step options instr = .ok (simplified, next)) :
    pool.Keeps (fun name => instr.dest? = some name) next := by
  rcases cases_of_step stepped with ⟨-, -, rfl⟩ | ⟨-, -, passed⟩
  · exact .refl _ next
  · have reading := sound.keeps_readAll instr.args
    obtain ⟨reads, bounds⟩ := sound.readsOn_readAll instr.args
    cases result : instr.result? with
    | none =>
      rw [past_of_none result, Prod.mk.injEq] at passed
      rw [← passed.2]
      exact reading.mono fun _ => False.elim
    | some found =>
      obtain ⟨dest, ty⟩ := found
      rw [past_of_some result, Prod.mk.injEq] at passed
      have counting := keeps_resultNumber (pool.readAll instr.args).2 options
        (pool.readAll instr.args).1 instr
      have counted := (reads.sound.resultNumber options bounds instr).1
      rw [← passed.2]
      refine ((reading.trans counting).mono fun _ => False.elim).trans
        ((counted.consistent.keeps_assign dest _).mono ?_)
      rintro name rfl
      rw [Instruction.dest?, result]
      rfl

/-- Variables that are read have their numbers then. -/
theorem Sound.knows_readAll (sound : pool.Sound) (names : List String) :
    (pool.readAll names).2.Knows names (pool.readAll names).1 := by
  induction names generalizing pool with
  | nil => exact .nil
  | cons name names ih =>
    obtain ⟨first, -, known⟩ := sound.readsOn_read name
    rw [readAll_cons]
    exact .cons ((first.sound.keeps_readAll names).numbers_eq name _ id known) (ih first.sound)

/-- Variables that have numbers are read without a change. -/
theorem readAll_of_known {names : List String} {numbers : List Nat}
    (known : pool.Knows names numbers) : pool.readAll names = (numbers, pool) := by
  induction known with
  | nil => rfl
  | cons first _ ih => rw [readAll_cons, read_of_known first, ih]

end Pool

/-- From one place up to another no instruction writes a variable. -/
def Unwritten (instrs : List Instruction) (name : String) (start stop : Nat) : Prop :=
  ∀ index instr, start ≤ index → index < stop → instrs[index]? = some instr →
    instr.dest? ≠ some name

/-- Pools in front of the instructions of a block that value numbering leaves as they are. -/
structure Pool.Settled (options : Options) (instrs : List Instruction) (pools : Nat → Pool) :
    Prop where
  sound : ∀ index, (pools index).Sound
  step_eq : ∀ index instr, instrs[index]? = some instr →
    (pools index).step options instr = .ok (instr, pools (index + 1))

namespace Pool

/-- From one place up to another everything is kept but the variables that are written there. -/
theorem Settled.keeps {options : Options} {instrs : List Instruction} {pools : Nat → Pool}
    (settled : Settled options instrs pools) {start stop : Nat} (ordered : start ≤ stop)
    (within : stop ≤ instrs.length) :
    (pools start).Keeps (fun name => ¬Unwritten instrs name start stop) (pools stop) := by
  induction stop, ordered using Nat.le_induction with
  | base => exact .refl _ _
  | succ stop ordered ih =>
    obtain ⟨instr, stands⟩ : ∃ instr, instrs[stop]? = some instr :=
      ⟨_, List.getElem?_eq_getElem (Nat.lt_of_succ_le within)⟩
    refine ((ih (Nat.le_of_succ_le within)).mono ?_).trans
      (((settled.sound stop).keeps_step (settled.step_eq stop instr stands)).mono ?_)
    · intro name written still
      exact written fun index other from' before =>
        still index other from' (Nat.lt_succ_of_lt before)
    · intro name written still
      exact still stop instr ordered (Nat.lt_succ_self stop) stands written

end Pool

end Midend
