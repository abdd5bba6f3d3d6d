import Midend.Proofs.Numbering.Idempotence
import Midend.Proofs.Numbering.Prefix

/-!
# Nothing left to share

A block that has been value-numbered is left as it is by value numbering. Going past it a second
time therefore says what each of its instructions meets: an operation that is still written has a
number that no variable held, and a variable that is still read is the one that has held its number
longest. Both would be contradicted by an operation that is repeated while its operands and its
first result are still there, and by a copy that is read while its source still has the same value.
-/

namespace Midend

open Lang

/-- Operands that have one expression: the same ones, or the same in another order where operands
of commutative operations are taken in any order. -/
def Options.MatchOperands (options : Options) (op : ValueOp) {α : Type} (first second : List α) :
    Prop :=
  second = first ∨ options.commutative = true ∧ op.isCommutative = true ∧ second.Perm first

/-- An operation other than a copy is numbered at two places with matching operands, while neither
its operands nor its first result have been written in between. -/
def RepeatsOperation (options : Options) (instrs : List Instruction) (earlier later : Nat) : Prop :=
  ∃ op dest ty operands pos otherDest otherTy otherOperands otherPos,
    instrs[earlier]? = some (.value op dest ty operands pos) ∧
    instrs[later]? = some (.value op otherDest otherTy otherOperands otherPos) ∧
    op.treatment = .numbered ∧ op ≠ .id ∧
    options.MatchOperands op operands.args otherOperands.args ∧
    (∀ name ∈ operands.args, Unwritten instrs name earlier later) ∧
    Unwritten instrs dest (earlier + 1) later

/-- A variable that was copied from another is read by an instruction that is looked at, while
neither of the two has been written since. -/
def ReadsCopy (instrs : List Instruction) (earlier later : Nat) : Prop :=
  ∃ dest ty operands pos source reader,
    instrs[earlier]? = some (.value .id dest ty operands pos) ∧ operands.args = [source] ∧
    source ≠ dest ∧ instrs[later]? = some reader ∧ reader.treatment ≠ .ignored ∧
    dest ∈ reader.args ∧ Unwritten instrs dest (earlier + 1) later ∧
    Unwritten instrs source (earlier + 1) later

/-- Matching operands are arranged alike. -/
theorem Options.MatchOperands.arrange_eq {options : Options} {op : ValueOp}
    {first second : List Nat} (alike : options.MatchOperands op first second) :
    options.arrange op second = options.arrange op first := by
  rcases alike with rfl | ⟨chosen, commutative, perm⟩
  · rfl
  · exact arrange_eq_of_perm (by simp [chosen, commutative]) perm

/-- Variables that match others have numbers that match theirs. -/
theorem Options.MatchOperands.exists_knows {options : Options} {op : ValueOp} {pool : Pool}
    {first second : List String} (alike : options.MatchOperands op first second)
    {numbers : List Nat} (known : pool.Knows first numbers) :
    ∃ others, pool.Knows second others ∧ options.MatchOperands op numbers others := by
  rcases alike with rfl | ⟨chosen, commutative, perm⟩
  · exact ⟨numbers, known, .inl rfl⟩
  · obtain ⟨others, knownToo, same⟩ := List.perm_comp_forall₂ perm known
    exact ⟨others, knownToo, .inr ⟨chosen, commutative, same⟩⟩

namespace Pool

variable {options : Options} {pool next : Pool} {instrs : List Instruction}

/-- A numbered operation other than a copy has the number of its expression. -/
theorem resultNumber_of_ne {op : ValueOp} {dest : String} {ty : Ty} {operands : Operands}
    {pos : Option Position} (numbered : op.treatment = .numbered) (other : op ≠ .id)
    (pool : Pool) (numbers : List Nat) :
    pool.resultNumber options numbers (.value op dest ty operands pos) =
      pool.intern (.apply op (options.arrange op numbers)) := by
  rw [resultNumber, if_pos numbered, pool.numberOf_eq_intern fun copy => other copy.1]

/-- A step past an instruction that is looked at goes past it. -/
theorem past_eq_of_step {instr simplified : Instruction} (looked : instr.treatment ≠ .ignored)
    (stepped : pool.step options instr = .ok (simplified, next)) :
    pool.past options instr = (simplified, next) := by
  obtain ⟨ignored, -⟩ | ⟨-, -, passed⟩ := cases_of_step stepped
  · exact absurd ignored looked
  · exact passed

/-- An operation that replaces itself is neither a constant nor held by a variable. -/
theorem unheld_of_replacement {number : Nat} {op : ValueOp} {dest : String} {ty : Ty}
    {operands : Operands} {pos : Option Position} (other : op ≠ .id)
    (kept : pool.replacement number dest ty (.value op dest ty operands pos) =
      .value op dest ty operands pos) : pool.holdersOf number = [] := by
  unfold replacement at kept
  split at kept
  · cases kept
  · cases kept
    exact absurd rfl other
  next unheld => exact List.head?_eq_none_iff.1 unheld

/-- A numbered operation that is left as it is has a number that no variable held. -/
theorem unheld_of_step {op : ValueOp} {dest : String} {ty : Ty} {operands : Operands}
    {pos : Option Position} (numbered : op.treatment = .numbered) (other : op ≠ .id)
    (stepped : pool.step options (.value op dest ty operands pos) =
      .ok (.value op dest ty operands pos, next)) :
    let read := pool.readAll operands.args
    let result := read.2.intern (.apply op (options.arrange op read.1))
    result.2.holdersOf result.1 = [] ∧ next = result.2.assign dest result.1 := by
  have looked : (Instruction.value op dest ty operands pos).treatment ≠ .ignored := by
    rw [Instruction.treatment, numbered]
    decide
  have passed := past_eq_of_step looked stepped
  rw [past_of_some rfl] at passed
  dsimp only [Instruction.args, Instruction.operands] at passed
  rw [resultNumber_of_ne numbered other, Prod.mk.injEq] at passed
  exact ⟨unheld_of_replacement other passed.1, passed.2.symm⟩

/-- A copy that replaces itself copies the variable that has held its number longest. -/
theorem standIn?_of_replacement {number : Nat} {dest source : String} {ty : Ty}
    {operands : Operands} {pos : Option Position} (single : operands.args = [source])
    (known : pool.numbers[source]? = some number) (consistent : pool.Consistent)
    (kept : pool.replacement number dest ty (.value .id dest ty operands pos) =
      .value .id dest ty operands pos) : pool.standIn? number = some source := by
  have held := (consistent.standIn?_eq_preferred known).1
  unfold replacement at kept
  split at kept
  · cases kept
  next holder _ found =>
    obtain ⟨-, -, -, rfl, -⟩ := Instruction.value.inj kept
    rw [found, (List.cons.inj single).1]
  next unheld =>
    rw [held] at unheld
    cases unheld

/-- Behind a numbered operation that is left as it is, its operands have the numbers that its
expression lists, and its result is the first to hold the number of that. -/
theorem Sound.exists_number_of_step (sound : pool.Sound) {op : ValueOp} {dest : String} {ty : Ty}
    {operands : Operands} {pos : Option Position} (numbered : op.treatment = .numbered)
    (other : op ≠ .id) (apart : dest ∉ operands.args)
    (stepped : pool.step options (.value op dest ty operands pos) =
      .ok (.value op dest ty operands pos, next)) :
    ∃ numbers number, next.Knows operands.args numbers ∧
      next.table.expr? number = some (.apply op (options.arrange op numbers)) ∧
      next.foremost? [dest] number = some dest := by
  obtain ⟨unheld, rfl⟩ := unheld_of_step numbered other stepped
  obtain ⟨reads, bounds⟩ := sound.readsOn_readAll operands.args
  have known := sound.knows_readAll operands.args
  generalize pool.readAll operands.args = read at reads bounds known unheld
  have found := reads.sound.consistent.expr?_intern (.apply op (options.arrange op read.1))
  have counting := read.2.keeps_intern (.apply op (options.arrange op read.1))
  have counted := (reads.sound.resultNumber options bounds
    (.value op dest ty operands pos)).1.consistent
  rw [resultNumber_of_ne numbered other] at counted
  generalize read.2.intern (.apply op (options.arrange op read.1)) = result at *
  refine ⟨read.1, result.1, ?_, ?_, ?_⟩
  -- The operands keep their numbers because the result is not among them.
  · have assigning := counted.keeps_assign dest result.1
    refine ((counting.mono fun _ => False.elim).trans assigning).knows known ?_
    rintro name member rfl
    exact apart member
  · rw [table_assign]
    exact found
  -- The operation is still written, so no variable held its number and the result is alone.
  · refine foremost?_of_standIn? ?_ List.mem_cons_self
    rw [standIn?, holdersOf_assign _ counted, unheld, if_pos rfl]
    rfl

/-- Where its operands have numbers whose expression a variable holds, a numbered operation is not
left as it is. -/
theorem Sound.step_ne_of_held (sound : pool.Sound) {op : ValueOp} {dest : String} {ty : Ty}
    {operands : Operands} {pos : Option Position} {numbers : List Nat} {number : Nat}
    {holder : String} (numbered : op.treatment = .numbered) (other : op ≠ .id)
    (known : pool.Knows operands.args numbers)
    (found : pool.table.expr? number = some (.apply op (options.arrange op numbers)))
    (held : holder ∈ pool.holdersOf number) :
    pool.step options (.value op dest ty operands pos) ≠
      .ok (.value op dest ty operands pos, next) := by
  intro stepped
  obtain ⟨unheld, -⟩ := unheld_of_step numbered other stepped
  rw [readAll_of_known known] at unheld
  dsimp only at unheld
  rw [sound.intern_eq (Expr.equals_self_apply op _) found] at unheld
  rw [unheld] at held
  cases held

/-- Behind a copy that is left as it is, the copy has the number of its source, and of the two the
source has held that number longer. -/
theorem Sound.exists_number_of_copy (sound : pool.Sound) {dest source : String} {ty : Ty}
    {operands : Operands} {pos : Option Position} (single : operands.args = [source])
    (apart : source ≠ dest)
    (stepped : pool.step options (.value .id dest ty operands pos) =
      .ok (.value .id dest ty operands pos, next)) :
    ∃ number, next.numbers[dest]? = some number ∧
      next.foremost? [source, dest] number = some source := by
  obtain ⟨reads, -, known⟩ := sound.readsOn_read source
  have passed := past_eq_of_step (fun ignored => by cases ignored) stepped
  rw [past_of_some rfl] at passed
  dsimp only [Instruction.args, Instruction.operands] at passed
  rw [single, readAll_cons, readAll] at passed
  generalize pool.read source = read at reads known passed
  have copied : read.2.resultNumber options [read.1] (.value .id dest ty operands pos) = read :=
    rfl
  dsimp only at passed
  rw [copied, Prod.mk.injEq] at passed
  obtain ⟨written, rfl⟩ := passed
  have first := standIn?_of_replacement single known reads.sound.consistent written
  obtain ⟨rest, listed⟩ := List.head?_eq_some_iff.1 first
  refine ⟨read.1, by rw [numbers_assign, if_pos rfl], ?_⟩
  refine foremost?_of_standIn? ?_ List.mem_cons_self
  rw [standIn?, holdersOf_assign _ reads.sound.consistent, listed]
  simp [apart]

/-- Operands that changing to the preferred variables leaves alone have held their numbers
longest. -/
theorem Consistent.exists_standIn? (consistent : pool.Consistent) {instr : Instruction}
    {numbers : List Nat} (known : pool.Knows instr.args numbers)
    (kept : instr.mapArgs pool.preferred = instr) {name : String} (member : name ∈ instr.args) :
    ∃ number, pool.standIn? number = some name := by
  rw [← kept, Instruction.args_mapArgs, List.mem_map] at member
  obtain ⟨read, among, rfl⟩ := member
  obtain ⟨number, -, has⟩ := exists_of_forall₂ known among
  exact ⟨number, (consistent.standIn?_eq_preferred has).1⟩

/-- An operand of an instruction that is left as it is has held a number longest, before anything
has changed. -/
theorem Sound.exists_standIn?_of_step (sound : pool.Sound) {instr : Instruction}
    (looked : instr.treatment ≠ .ignored)
    (stepped : pool.step options instr = .ok (instr, next)) {name : String}
    (member : name ∈ instr.args) :
    ∃ middle number, pool.Keeps (fun _ => False) middle ∧ middle.Consistent ∧
      middle.standIn? number = some name := by
  have passed := past_eq_of_step looked stepped
  have reading := sound.keeps_readAll instr.args
  have known := sound.knows_readAll instr.args
  obtain ⟨reads, bounds⟩ := sound.readsOn_readAll instr.args
  cases result : instr.result? with
  | none =>
    rw [past_of_none result, Prod.mk.injEq] at passed
    obtain ⟨number, first⟩ := reads.sound.consistent.exists_standIn? known passed.1 member
    exact ⟨_, number, reading, reads.sound.consistent, first⟩
  | some found =>
    obtain ⟨dest, ty⟩ := found
    rw [past_of_some result, Prod.mk.injEq] at passed
    have counting := keeps_resultNumber (pool.readAll instr.args).2 options
      (pool.readAll instr.args).1 instr
    have counted := (reads.sound.resultNumber options bounds instr).1.consistent
    generalize (pool.readAll instr.args).2.resultNumber options (pool.readAll instr.args).1
      instr = numbered at *
    obtain ⟨written, -⟩ := passed
    have first : ∃ number, numbered.2.standIn? number = some name := by
      unfold replacement at written
      split at written
      -- A constant reads nothing, and a copy reads the variable that is in front.
      · rw [← written] at member
        cases member
      next holder _ held =>
        rw [← written] at member
        rw [List.mem_singleton.1 member]
        exact ⟨_, held⟩
      · exact counted.exists_standIn? (counting.knows known fun _ _ => id) written member
    obtain ⟨number, first⟩ := first
    exact ⟨_, number, reading.trans counting, counted, first⟩

/-- Where a variable has the number of another that has held it longer, an instruction that reads it
is not left as it is. -/
theorem Sound.step_ne_of_copied (sound : pool.Sound) {instr : Instruction} {dest source : String}
    {number : Nat} (looked : instr.treatment ≠ .ignored) (apart : source ≠ dest)
    (known : pool.numbers[dest]? = some number)
    (first : pool.foremost? [source, dest] number = some source) (member : dest ∈ instr.args) :
    pool.step options instr ≠ .ok (instr, next) := by
  intro stepped
  obtain ⟨middle, other, keeps, consistent, standIn⟩ :=
    sound.exists_standIn?_of_step looked stepped member
  have holds := (consistent.mem_holdersOf dest other).1 (List.mem_of_mem_head? standIn)
  rw [keeps.numbers_eq dest number id known] at holds
  obtain rfl := Option.some.inj holds
  have longest : middle.foremost? [source, dest] number = some dest :=
    foremost?_of_standIn? standIn (by simp)
  rw [keeps.foremost?_eq _ _ _ (fun _ _ => id) first] at longest
  exact apart (Option.some.inj longest)

/-- In front of the instructions that a run has written there are pools from which a further run
leaves them as they are. -/
theorem Passes.exists_settled {last : Pool} (passes : Passes options pool instrs instrs last)
    (sound : pool.Sound) : ∃ pools, pools 0 = pool ∧ Settled options instrs pools := by
  induction instrs generalizing pool with
  | nil => exact ⟨fun _ => pool, rfl, fun _ => sound, nofun⟩
  | cons instr instrs ih =>
    obtain _ | ⟨stepped, rest⟩ := passes
    obtain ⟨pools, first, settled⟩ := ih rest (sound.step stepped)
    refine ⟨Nat.rec pool fun index _ => pools index, rfl, ?_, ?_⟩
    · intro index
      cases index with
      | zero => exact sound
      | succ index => exact settled.sound index
    · intro index other stands
      cases index with
      | zero =>
        obtain rfl := Option.some.inj stands
        change pool.step options instr = .ok (instr, pools 0)
        rw [first, stepped]
      | succ index => exact settled.step_eq index other stands

namespace Settled

variable {pools : Nat → Pool} {earlier later : Nat}

/-- Instructions that are left as they are repeat no operation. -/
theorem not_repeatsOperation (settled : Settled options instrs pools) (ordered : earlier < later) :
    ¬RepeatsOperation options instrs earlier later := by
  rintro ⟨op, dest, ty, operands, pos, otherDest, otherTy, otherOperands, otherPos, stands,
    standsToo, numbered, other, alike, unwritten, kept⟩
  have within := Nat.le_of_lt (List.getElem?_eq_some_iff.1 standsToo).1
  have apart : dest ∉ operands.args := fun member =>
    unwritten dest member earlier _ (Nat.le_refl _) ordered stands rfl
  obtain ⟨numbers, number, known, found, first⟩ :=
    (settled.sound earlier).exists_number_of_step numbered other apart
      (settled.step_eq earlier _ stands)
  have keeps := settled.keeps (Nat.succ_le_of_lt ordered) within
  -- What is known behind the first operation is still known in front of the second.
  have still : (pools later).Knows operands.args numbers := by
    refine keeps.knows known fun name member changed => changed fun index instr after => ?_
    exact unwritten name member index instr (Nat.le_of_succ_le after)
  have foundToo := keeps.expr?_eq number _ found
  have held : dest ∈ (pools later).holdersOf number := by
    refine mem_holdersOf_of_foremost? (keeps.foremost?_eq [dest] number dest ?_ first)
    rintro name member changed
    rw [List.mem_singleton.1 member] at changed
    exact changed kept
  obtain ⟨others, knownToo, same⟩ := alike.exists_knows still
  rw [← same.arrange_eq] at foundToo
  exact (settled.sound later).step_ne_of_held numbered other knownToo foundToo held
    (settled.step_eq later _ standsToo)

/-- Instructions that are left as they are read no copy of a variable that still has its value. -/
theorem not_readsCopy (settled : Settled options instrs pools) (ordered : earlier < later) :
    ¬ReadsCopy instrs earlier later := by
  rintro ⟨dest, ty, operands, pos, source, reader, stands, single, apart, standsToo, looked, member,
    kept, keptToo⟩
  have within := Nat.le_of_lt (List.getElem?_eq_some_iff.1 standsToo).1
  obtain ⟨number, known, first⟩ := (settled.sound earlier).exists_number_of_copy single apart
    (settled.step_eq earlier _ stands)
  have keeps := settled.keeps (Nat.succ_le_of_lt ordered) within
  -- The source is still in front of its copy, which therefore cannot be read.
  have unwritten : ∀ name ∈ [source, dest], ¬¬Unwritten instrs name (earlier + 1) later := by
    simp [kept, keptToo]
  exact (settled.sound later).step_ne_of_copied looked apart
    (keeps.numbers_eq dest number (not_not_intro kept) known)
    (keeps.foremost?_eq [source, dest] number source unwritten first) member
    (settled.step_eq later reader standsToo)

end Settled

end Pool

/-- The instructions of a block that has been value-numbered are left as they are. -/
theorem Block.exists_settled {options : Options} {block simplified : Block} {count : Nat}
    (succeeded : block.numberValues options = (simplified, .ok count)) :
    ∃ pools, Pool.Settled options simplified.instrs pools := by
  have again := (Block.numberValues_again succeeded).1
  obtain ⟨last, passes⟩ := Pool.exists_passes_of_simplify (numberValues_eq_ok_iff.1 again).1
  obtain ⟨pools, -, settled⟩ := passes.exists_settled Pool.sound_empty
  exact ⟨pools, settled⟩

/-- A block that has been value-numbered repeats no numbered operation whose operands and first
result are still there, and reads no copy of a variable that still has the value copied. -/
theorem numberValues_leavesNothingShared (options : Options) (block simplified : Block)
    (count : Nat) (succeeded : block.numberValues options = (simplified, .ok count))
    (earlier later : Nat) (ordered : earlier < later) :
    ¬RepeatsOperation options simplified.instrs earlier later ∧
      ¬ReadsCopy simplified.instrs earlier later := by
  obtain ⟨pools, settled⟩ := Block.exists_settled succeeded
  exact ⟨settled.not_repeatsOperation ordered, settled.not_readsCopy ordered⟩

/-- A block that computes one sum with its operands both ways round, and prints a copy of it. -/
def copiedSum : Block where
  label := "top"
  instrs := [
    .value .add "x" .int { args := ["a", "b"] } none,
    .value .add "y" .int { args := ["b", "a"] } none,
    .value .id "z" .int { args := ["y"] } none,
    .effect .print { args := ["z", "y"] } none]

/-- The block repeats its sum and reads the copy until it is value-numbered. -/
theorem numberValues_leavesNothingShared_copiedSum :
    RepeatsOperation { commutative := true } copiedSum.instrs 0 1 ∧
      ReadsCopy copiedSum.instrs 2 3 ∧
      ∃ simplified count,
        copiedSum.numberValues { commutative := true } = (simplified, .ok count) ∧
          ¬RepeatsOperation { commutative := true } simplified.instrs 0 1 ∧
          ¬ReadsCopy simplified.instrs 2 3 := by
  refine ⟨?_, ?_, ?_⟩
  · refine ⟨.add, "x", .int, _, none, "y", .int, _, none, rfl, rfl, rfl, nofun,
      .inr ⟨rfl, rfl, .swap "a" "b" []⟩, ?_, ?_⟩
    · rintro name member index instr - before stands
      obtain rfl := Nat.lt_one_iff.1 before
      obtain rfl := Option.some.inj stands
      revert name
      decide
    · intro index instr after before
      exact absurd (Nat.lt_of_lt_of_le before after) (Nat.lt_irrefl _)
  · refine ⟨"z", .int, _, none, "y", _, rfl, rfl, by decide, rfl, nofun, by decide, ?_, ?_⟩
    all_goals
      intro index instr after before
      exact absurd (Nat.lt_of_lt_of_le before after) (Nat.lt_irrefl _)
  · obtain ⟨count, counted⟩ :=
      Pool.simplify_succeeds { commutative := true } {} copiedSum.instrs (by decide)
    have succeeded : copiedSum.numberValues { commutative := true } = (_, .ok count) :=
      Prod.ext rfl counted
    have sums := numberValues_leavesNothingShared _ _ _ count succeeded 0 1 (by decide)
    have copies := numberValues_leavesNothingShared _ _ _ count succeeded 2 3 (by decide)
    exact ⟨_, count, succeeded, sums.1, copies.2⟩

end Midend
