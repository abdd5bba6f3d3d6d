import Mathlib.Data.List.Flatten
import Midend.Proofs.Numbering.Results
import Midend.Proofs.Numbering.Prefix

/-!
# Numbers and their holders

The two maps of a pool stay inverse to each other whatever instructions it is taken past, those
included that have not the shape of their operation. The holders of a number stand in the order in
which they were last set, where a variable is set by being assigned, or by being read if it was
never met before.
-/

namespace Midend

open Lang

/-- What is done to a variable. -/
inductive Use
  | read (name : String)
  | assign (name : String)
deriving DecidableEq, Repr

/-- The variable that something is done to. -/
def Use.name : Use → String
  | read name | assign name => name

/-- What a pool does to variables in going past an instruction, in order: it reads the operands and
assigns the destination, unless the instruction is not looked at or is refused for its shape. -/
def Lang.Instruction.uses (instr : Instruction) : List Use :=
  match instr.treatment, instr.defect? with
  | .ignored, _ | .numbered, some _ => []
  | _, _ => instr.args.map .read ++ instr.dest?.toList.map .assign

/-- An instruction that is looked at and not refused has its operands read and its destination
assigned. -/
theorem Lang.Instruction.uses_eq (instr : Instruction) (lookedAt : instr.treatment ≠ .ignored)
    (shaped : instr.treatment = .numbered → instr.defect? = none) :
    instr.uses = instr.args.map .read ++ instr.dest?.toList.map .assign := by
  unfold uses
  cases treated : instr.treatment with
  | ignored => exact absurd treated lookedAt
  | fresh => rfl
  | numbered => rw [shaped treated]

/-- The place among the uses at which a variable was last set: its last assignment, or its first
reading if it was never assigned. -/
def LastSet (uses : List Use) (name : String) (time : Nat) : Prop :=
  (uses[time]? = some (.assign name) ∧
      ∀ later, time < later → uses[later]? ≠ some (.assign name)) ∨
    (.assign name ∉ uses ∧ uses[time]? = some (.read name) ∧
      ∀ earlier < time, uses[earlier]? ≠ some (.read name))

/-- A variable was set at one of the uses. -/
theorem LastSet.lt {uses : List Use} {name : String} {time : Nat} (set : LastSet uses name time) :
    time < uses.length := by
  rcases set with ⟨found, -⟩ | ⟨-, found, -⟩
  · exact (List.getElem?_eq_some_iff.1 found).1
  · exact (List.getElem?_eq_some_iff.1 found).1

/-- A use is found at a place in front of another use or not at all. -/
theorem getElem?_append_eq_some_iff {uses : List Use} {use one : Use} (different : use ≠ one)
    (place : Nat) : (uses ++ [use])[place]? = some one ↔ uses[place]? = some one := by
  rcases Nat.lt_trichotomy place uses.length with before | rfl | behind
  · rw [List.getElem?_append_left before]
  · simp [different]
  · rw [List.getElem?_eq_none (by simp; omega), List.getElem?_eq_none (by omega)]

/-- A use of another variable does not change when a variable was last set. -/
theorem lastSet_append_of_ne {uses : List Use} {use : Use} {name : String}
    (other : use.name ≠ name) (time : Nat) :
    LastSet (uses ++ [use]) name time ↔ LastSet uses name time := by
  have notAssign : use ≠ .assign name := by
    rintro rfl
    exact other rfl
  have notRead : use ≠ .read name := by
    rintro rfl
    exact other rfl
  simp only [LastSet, getElem?_append_eq_some_iff notAssign, getElem?_append_eq_some_iff notRead,
    ne_eq, List.mem_append, List.mem_singleton, notAssign.symm, or_false]

/-- A variable that has just been assigned was last set there. -/
theorem lastSet_append_assign (uses : List Use) (name : String) (time : Nat) :
    LastSet (uses ++ [.assign name]) name time ↔ time = uses.length := by
  have newest : (uses ++ [Use.assign name])[uses.length]? = some (.assign name) := by simp
  constructor
  · rintro (⟨found, last⟩ | ⟨never, -⟩)
    · have inside := (List.getElem?_eq_some_iff.1 found).1
      rw [List.length_append, List.length_singleton] at inside
      by_contra earlier
      exact last uses.length (by omega) newest
    · exact absurd (List.mem_append_right uses List.mem_cons_self) never
  · rintro rfl
    refine .inl ⟨newest, fun later behind => ?_⟩
    rw [List.getElem?_eq_none (by simp; omega)]
    exact (Option.some_ne_none _).symm

/-- A variable that was read for the first time was last set there. -/
theorem lastSet_append_read_of_new {uses : List Use} {name : String}
    (new : ∀ use ∈ uses, use.name ≠ name) (time : Nat) :
    LastSet (uses ++ [.read name]) name time ↔ time = uses.length := by
  have unread (place : Nat) (before : place < uses.length) :
      (uses ++ [Use.read name])[place]? ≠ some (.read name) := by
    rw [List.getElem?_append_left before]
    exact fun found => new _ (List.mem_of_getElem? found) rfl
  have never : Use.assign name ∉ uses ++ [.read name] := by
    rw [List.mem_append, List.mem_singleton]
    rintro (member | same)
    · exact new _ member rfl
    · cases same
  constructor
  · rintro (⟨found, -⟩ | ⟨-, found, -⟩)
    · exact absurd (List.mem_of_getElem? found) never
    · have inside := (List.getElem?_eq_some_iff.1 found).1
      rw [List.length_append, List.length_singleton] at inside
      by_contra earlier
      exact unread time (by omega) found
  · rintro rfl
    exact .inr ⟨never, by simp, unread⟩

/-- Reading a variable again does not change when it was last set. -/
theorem lastSet_append_read_of_known {uses : List Use} {name : String}
    (known : ∃ use ∈ uses, use.name = name) (time : Nat) :
    LastSet (uses ++ [.read name]) name time ↔ LastSet uses name time := by
  have notAssign : Use.read name ≠ .assign name := nofun
  simp only [LastSet, getElem?_append_eq_some_iff notAssign, ne_eq, List.mem_append,
    List.mem_singleton, notAssign.symm, or_false]
  refine or_congr_right (and_congr_right fun never => ?_)
  -- It was not assigned, and so it was read before.
  obtain ⟨place, found⟩ : ∃ place : Nat, uses[place]? = some (Use.read name) := by
    obtain ⟨use, member, same⟩ := known
    cases use with
    | read other =>
      obtain rfl : other = name := same
      exact List.getElem?_of_mem member
    | assign other =>
      obtain rfl : other = name := same
      exact absurd member never
  have inside := (List.getElem?_eq_some_iff.1 found).1
  constructor
  · rintro ⟨foundToo, first⟩
    have notBehind : ¬place < time := fun earlier =>
      first place earlier (by rwa [List.getElem?_append_left inside])
    have before : time < uses.length := by omega
    rw [List.getElem?_append_left before] at foundToo
    refine ⟨foundToo, fun earlier sooner => ?_⟩
    rw [← List.getElem?_append_left (Nat.lt_trans sooner before)]
    exact first earlier sooner
  · rintro ⟨foundToo, first⟩
    have before := (List.getElem?_eq_some_iff.1 foundToo).1
    refine ⟨by rwa [List.getElem?_append_left before], fun earlier sooner => ?_⟩
    rw [List.getElem?_append_left (Nat.lt_trans sooner before)]
    exact first earlier sooner

/-- A variable that is used was set at some time. -/
theorem exists_lastSet {uses : List Use} {name : String} (used : ∃ use ∈ uses, use.name = name) :
    ∃ time, LastSet uses name time := by
  induction uses using List.reverseRecOn with
  | nil => simp at used
  | append_singleton uses use ih =>
    by_cases same : use.name = name
    · by_cases before : ∃ use ∈ uses, use.name = name
      · cases use with
        | read other =>
          obtain rfl : other = name := same
          simp only [lastSet_append_read_of_known before]
          exact ih before
        | assign other =>
          obtain rfl : other = name := same
          exact ⟨_, (lastSet_append_assign uses other _).2 rfl⟩
      · cases use with
        | read other =>
          obtain rfl : other = name := same
          exact ⟨_, (lastSet_append_read_of_new (by simpa using before) _).2 rfl⟩
        | assign other =>
          obtain rfl : other = name := same
          exact ⟨_, (lastSet_append_assign uses other _).2 rfl⟩
    · simp only [lastSet_append_of_ne same]
      refine ih ?_
      obtain ⟨one, member, named⟩ := used
      rcases List.mem_append.1 member with earlier | newest
      · exact ⟨one, earlier, named⟩
      · rw [List.mem_singleton.1 newest] at named
        exact absurd named same

/-- The values of variables behind an instruction. One that is refused for its shape changes
nothing. -/
def Pool.update (options : Options) (pool : Pool) (instr : Instruction) : Pool :=
  match pool.step options instr with
  | .ok (_, next) => next
  | .error _ => pool

/-- A pool whose maps are inverse to each other, and whose holders stand in the order in which they
were last set. -/
structure Pool.Ordered (pool : Pool) (uses : List Use) : Prop where
  mem_holdersOf : ∀ name number,
    name ∈ pool.holdersOf number ↔ pool.numbers[name]? = some number
  nodup : ∀ number, (pool.holdersOf number).Nodup
  number_lt : ∀ (name : String) (number : Nat), pool.numbers[name]? = some number →
    number < pool.table.size
  holders_lt : ∀ number ∈ pool.holders, number < pool.table.size
  exists_lastSet : ∀ (name : String) (number : Nat), pool.numbers[name]? = some number →
    ∃ time, LastSet uses name time
  inOrder : ∀ number, (pool.holdersOf number).Pairwise fun one other =>
    ∀ time later, LastSet uses one time → LastSet uses other later → time < later

namespace Pool

/-- A sound pool with ordered holders in which exactly the variables used have numbers. -/
structure Tracks (pool : Pool) (uses : List Use) : Prop where
  sound : pool.Sound
  nodup : ∀ number, (pool.holdersOf number).Nodup
  holders_lt : ∀ number ∈ pool.holders, number < pool.table.size
  known_iff : ∀ name : String, pool.numbers[name]? ≠ none ↔ ∃ use ∈ uses, use.name = name
  inOrder : ∀ number, (pool.holdersOf number).Pairwise fun one other =>
    ∀ time later, LastSet uses one time → LastSet uses other later → time < later

variable {pool : Pool} {uses : List Use} {options : Options}

/-- Tracking a pool orders its holders. -/
theorem Tracks.ordered (tracks : pool.Tracks uses) : pool.Ordered uses where
  mem_holdersOf := tracks.sound.consistent.mem_holdersOf
  nodup := tracks.nodup
  number_lt := tracks.sound.consistent.number_lt
  holders_lt := tracks.holders_lt
  exists_lastSet name number found :=
    Midend.exists_lastSet ((tracks.known_iff name).1 (by simp [found]))
  inOrder := tracks.inOrder

/-- The empty pool tracks no uses. -/
theorem tracks_empty : Tracks {} [] where
  sound := sound_empty
  nodup number := by simp [holdersOf]
  holders_lt number member := by simp at member
  known_iff name := by simp
  inOrder number := by simp [holdersOf]

/-- A table that was only added to does not change what is tracked. -/
theorem Tracks.withTable (tracks : pool.Tracks uses) {table : Table}
    (sound : ({ pool with table } : Pool).Sound) (grown : pool.table.size ≤ table.size) :
    ({ pool with table } : Pool).Tracks uses where
  sound := sound
  nodup := tracks.nodup
  holders_lt number member := Nat.lt_of_lt_of_le (tracks.holders_lt number member) grown
  known_iff := tracks.known_iff
  inOrder := tracks.inOrder

/-- Assigning a variable puts down holders for its new number and for its old one, and for no other
that had none. -/
theorem mem_holders_assign {name : String} {number other : Nat}
    (member : other ∈ (pool.assign name number).holders) :
    other = number ∨ pool.numbers[name]? = some other ∨ other ∈ pool.holders := by
  rw [Pool.assign, Std.TreeMap.mem_insert, Std.LawfulEqCmp.compare_eq_iff_eq] at member
  rcases member with same | released
  · exact .inl same.symm
  · unfold release at released
    cases known : pool.numbers[name]? with
    | none =>
      rw [known] at released
      exact .inr (.inr released)
    | some old =>
      simp only [known, Std.TreeMap.mem_insert, Std.LawfulEqCmp.compare_eq_iff_eq] at released
      rcases released with same | before
      · exact .inr (.inl (congrArg some same))
      · exact .inr (.inr before)

/-- Setting a variable puts it last among the holders of its new number. -/
theorem Tracks.assign (tracks : pool.Tracks uses) (use : Use) {number : Nat}
    (bound : number < pool.table.size)
    (set : ∀ time, LastSet (uses ++ [use]) use.name time ↔ time = uses.length) :
    (pool.assign use.name number).Tracks (uses ++ [use]) := by
  have consistent := tracks.sound.consistent
  have holders := holdersOf_assign pool consistent use.name number
  have others (number : Nat) : ∀ holder ∈ (pool.holdersOf number).filter (· != use.name),
      use.name ≠ holder := by
    intro holder member
    rw [List.mem_filter, bne_iff_ne] at member
    exact member.2.symm
  constructor
  · exact tracks.sound.assign use.name bound
  · intro other
    rw [holders]
    refine List.Nodup.append ((tracks.nodup other).filter _) ?_ ?_
    · split <;> simp
    · split
      · exact List.disjoint_singleton.2 fun member => others other _ member rfl
      · exact List.disjoint_nil_right _
  · intro other member
    rw [table_assign]
    rcases mem_holders_assign member with rfl | old | before
    · exact bound
    · exact consistent.number_lt use.name other old
    · exact tracks.holders_lt other before
  · intro name
    rw [numbers_assign]
    simp only [List.mem_append, List.mem_singleton, or_and_right, exists_or, exists_eq_left]
    by_cases same : name = use.name
    · simp [same]
    · simp [same, Ne.symm same, ← tracks.known_iff]
  · intro other
    rw [holders, List.pairwise_append]
    refine ⟨?_, ?_, ?_⟩
    · refine ((tracks.inOrder other).filter _).imp_of_mem fun {one} {another} first second apart =>
        fun time later => ?_
      rw [lastSet_append_of_ne (others other _ first), lastSet_append_of_ne (others other _ second)]
      exact apart time later
    · split <;> simp
    · intro one first another second time later before newest
      split at second
      next =>
        rw [List.mem_singleton.1 second, set] at newest
        rw [lastSet_append_of_ne (others other _ first)] at before
        rw [newest]
        exact before.lt
      next => cases second

/-- Reading a variable sets it if it was not met before. -/
theorem Tracks.read (tracks : pool.Tracks uses) (name : String) :
    (pool.read name).2.Tracks (uses ++ [.read name]) := by
  have used := tracks.known_iff name
  cases known : pool.numbers[name]? with
  | some number =>
    have before := used.1 (by simp [known])
    have set (other : String) (time : Nat) :
        LastSet (uses ++ [.read name]) other time ↔ LastSet uses other time := by
      by_cases same : (Use.read name).name = other
      · exact same ▸ lastSet_append_read_of_known before time
      · exact lastSet_append_of_ne same time
    rw [read_of_known known]
    refine ⟨tracks.sound, tracks.nodup, tracks.holders_lt, fun other => ?_, fun number => ?_⟩
    · simp only [tracks.known_iff, List.mem_append, List.mem_singleton, or_and_right, exists_or,
        exists_eq_left, iff_self_or]
      rintro rfl
      exact before
    · simpa only [set] using tracks.inOrder number
  | none =>
    have new : ∀ use ∈ uses, use.name ≠ name := by simpa [known] using used
    have fresh := tracks.withTable tracks.sound.fresh (by simp)
    rw [read_of_new known]
    exact fresh.assign (.read name) (by simp) (lastSet_append_read_of_new new)

/-- Reading variables sets those that were not met before. -/
theorem Tracks.readAll (tracks : pool.Tracks uses) (names : List String) :
    (pool.readAll names).2.Tracks (uses ++ names.map .read) := by
  induction names generalizing pool uses with
  | nil => simpa [Pool.readAll] using tracks
  | cons name names ih => simpa [readAll_cons] using ih (tracks.read name)

/-- Numbering a result sets no variable. -/
theorem Tracks.resultNumber (tracks : pool.Tracks uses) {operands : List Nat}
    (bounds : ∀ operand ∈ operands, operand < pool.table.size) (instr : Instruction) :
    (pool.resultNumber options operands instr).2.Tracks uses := by
  have sound := (tracks.sound.resultNumber options bounds instr).1
  have grown (expr : Expr) : pool.table.size ≤ (pool.table.intern expr).2.size := by
    unfold Table.intern
    split <;> simp
  rcases pool.cases_of_resultNumber options operands instr with
    ⟨literal, -, same⟩ | ⟨operand, -, same⟩ | ⟨op, same⟩ | same
  all_goals rw [same] at sound ⊢
  · exact tracks.withTable sound (grown _)
  · exact tracks
  · exact tracks.withTable sound (grown _)
  · exact tracks.withTable sound (by simp)

/-- A step past an instruction sets what the instruction uses. -/
theorem Tracks.update (tracks : pool.Tracks uses) (options : Options) (instr : Instruction) :
    (pool.update options instr).Tracks (uses ++ instr.uses) := by
  unfold Pool.update
  cases stepped : pool.step options instr with
  | error fault =>
    obtain ⟨defect, misshapen, -⟩ := step_eq_error_iff.1 stepped
    obtain ⟨numbered, refused⟩ := (instr.misshapen_iff defect).1 misshapen
    simpa [Instruction.uses, numbered, refused] using tracks
  | ok passed =>
    obtain ⟨simplified, next⟩ := passed
    rcases cases_of_step stepped with ⟨ignored, -, rfl⟩ | ⟨lookedAt, shaped, passed⟩
    · simpa [Instruction.uses, ignored] using tracks
    · rw [instr.uses_eq lookedAt shaped, ← List.append_assoc]
      have read := tracks.readAll instr.args
      obtain ⟨reads, bounds⟩ := tracks.sound.readsOn_readAll instr.args
      cases result : instr.result? with
      | none =>
        rw [past_of_none result, Prod.mk.injEq] at passed
        rw [← passed.2]
        simpa [Instruction.dest?, result] using read
      | some found =>
        obtain ⟨dest, ty⟩ := found
        rw [past_of_some result, Prod.mk.injEq] at passed
        have bound := (reads.sound.resultNumber options bounds instr).2
        have assigned := (read.resultNumber bounds instr).assign (.assign dest) bound
          (lastSet_append_assign _ dest)
        rw [← passed.2]
        simpa [Instruction.dest?, result, Use.name] using assigned

/-- Going past instructions sets what they use. -/
theorem Tracks.updates (tracks : pool.Tracks uses) (options : Options)
    (instrs : List Instruction) :
    (instrs.foldl (Pool.update options) pool).Tracks (uses ++ instrs.flatMap Instruction.uses) := by
  induction instrs generalizing pool uses with
  | nil => simpa using tracks
  | cons instr instrs ih => simpa using ih (tracks.update options instr)

end Pool

/-- Whatever instructions a new pool is taken past, refused ones included, a variable is among the
holders of a number exactly if it has that number, and it is there once. All numbers that variables
have or that holders are kept for have an expression. The holders of a number stand in the order in
which they were last assigned or, if they never were, first read. The same holds of the pools in the
midst of a further instruction, when some of its operands have been read. -/
theorem holders_inOrder (options : Options) (instrs : List Instruction) (names : List String) :
    (instrs.foldl (Pool.update options) {}).Ordered (instrs.flatMap Instruction.uses) ∧
      ((instrs.foldl (Pool.update options) {}).readAll names).2.Ordered
        (instrs.flatMap Instruction.uses ++ names.map .read) := by
  have tracks := Pool.tracks_empty.updates options instrs
  exact ⟨tracks.ordered, (tracks.readAll names).ordered⟩

end Midend
