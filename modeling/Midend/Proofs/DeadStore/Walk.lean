import Midend.DeadStore.Basic
import Midend.Proofs.Block.Successors
import Midend.Proofs.Dataflow.Facts
import Midend.Proofs.Graph.Search
import Mathlib.Algebra.BigOperators.Ring.Finset

/-!
# The walk that finds dead stores

The walk ends, since every time it enters a block again a store has come there for the first time.
It then has entered the blocks that control can reach, and has found read exactly the stores from
which control can come to a read of the variable before another store to it.
-/

namespace Midend

open Lang

/-- Control can go from a numbered block to another one, whose name it gives. -/
def GoesTo (blocks : List Block) (source target : Nat) : Prop :=
  ∃ block, blocks[source]? = some block ∧
    ∃ label ∈ block.next, blockNamed? label blocks = some target

/-- Control goes from a block to those whose numbers are found under its names. -/
theorem mem_successors_iff_goesTo {blocks : List Block} {successors : List (List Nat)}
    (table : successorTable blocks = .ok successors) (source target : Nat) :
    target ∈ (successors[source]?).getD [] ↔ GoesTo blocks source target := by
  constructor
  · intro member
    by_cases inside : source < blocks.length
    · have found := List.getElem?_eq_getElem inside
      exact ⟨_, found, (mem_successors_iff table found target).1 member⟩
    · rw [← length_successors table] at inside
      rw [List.getElem?_eq_none (by omega)] at member
      cases member
  · rintro ⟨block, found, named⟩
    exact (mem_successors_iff table found target).2 named

/-- Control goes to blocks. -/
theorem GoesTo.lt_length {blocks : List Block} {source target : Nat}
    (follows : GoesTo blocks source target) : target < blocks.length := by
  obtain ⟨-, -, label, -, named⟩ := follows
  obtain ⟨block, found, -⟩ := label_of_blockNamed? named
  exact (List.getElem?_eq_some_iff.1 found).1

/-- Control reaches only blocks from the first one. -/
theorem lt_of_reachable {blocks : List Block} (filled : blocks ≠ []) {index : Nat}
    (reachable : Relation.ReflTransGen (GoesTo blocks) 0 index) : index < blocks.length := by
  cases reachable with
  | refl => exact List.length_pos_iff.2 filled
  | tail _ follows => exact follows.lt_length

/-- Control can come from behind some instructions of a block to one that reads a variable, without
meeting one that writes it before. An instruction reads before it writes. -/
inductive ReadFrom (blocks : List Block) (name : String) : (index offset : Nat) → Prop
  | here {index offset : Nat} {block : Block} {instr : Instruction}
    (found : blocks[index]? = some block) (within : block.instrs[offset]? = some instr)
    (reads : name ∈ instr.args) : ReadFrom blocks name index offset
  | past {index offset : Nat} {block : Block} {instr : Instruction}
    (found : blocks[index]? = some block) (within : block.instrs[offset]? = some instr)
    (keeps : instr.dest? ≠ some name) (later : ReadFrom blocks name index (offset + 1)) :
    ReadFrom blocks name index offset
  | into {index next : Nat} {block : Block} (found : blocks[index]? = some block)
    (follows : GoesTo blocks index next) (later : ReadFrom blocks name next 0) :
    ReadFrom blocks name index block.instrs.length

/-- Control can come to a read only from within a block. -/
theorem ReadFrom.exists_block {blocks : List Block} {name : String} {index offset : Nat}
    (ahead : ReadFrom blocks name index offset) : ∃ block, blocks[index]? = some block := by
  cases ahead with
  | here found => exact ⟨_, found⟩
  | past found => exact ⟨_, found⟩
  | into found => exact ⟨_, found⟩

/-- A place of an instruction that control can reach and that does no more than write a variable
which is not read from there on. -/
def IsDeadStore (blocks : List Block) (index offset : Nat) : Prop :=
  Relation.ReflTransGen (GoesTo blocks) 0 index ∧
    ∃ (block : Block) (instr : Instruction) (name : String), blocks[index]? = some block ∧
      block.instrs[offset]? = some instr ∧ instr.dest? = some name ∧
      instr.hasSideEffects = false ∧ ¬ReadFrom blocks name index (offset + 1)

/-- The stores of blocks are the instructions that have a destination. -/
theorem mem_storesOf_iff (blocks : List Block) (store : Store) :
    store ∈ storesOf blocks ↔
      ∃ instr, store.instr? blocks = some instr ∧ instr.dest? = some store.name := by
  unfold storesOf storesIn Store.instr?
  simp only [List.mem_flatMap, List.mem_filterMap, Prod.exists, List.mem_zipIdx_iff_getElem?,
    Option.map_eq_some_iff, Option.bind_eq_some_iff]
  constructor
  · rintro ⟨block, index, found, instr, offset, within, name, writes, rfl⟩
    exact ⟨instr, ⟨block, found, within⟩, writes⟩
  · rintro ⟨instr, ⟨block, found, within⟩, writes⟩
    exact ⟨block, store.block, found, instr, store.offset, within, store.name, writes, rfl⟩

/-- The stores that are current behind the first instructions of a block. -/
def currentAt (index : Nat) (instrs : List Instruction) (known : List Store) : Nat → List Store
  | 0 => known
  | offset + 1 =>
    match instrs[offset]? with
    | none => currentAt index instrs known offset
    | some instr => currentBehind index offset instr (currentAt index instrs known offset)

/-- Behind an instruction a store is current that the instruction makes, or that was current before
and has another variable. -/
theorem mem_currentBehind_iff (index offset : Nat) (instr : Instruction) (current : List Store)
    (store : Store) :
    store ∈ currentBehind index offset instr current ↔
      store ∈ current ∧ instr.dest? ≠ some store.name ∨
        instr.dest? = some store.name ∧ store.place = (index, offset) := by
  rw [currentBehind, Store.place, Prod.mk.injEq]
  cases instr.dest? with
  | none => simp
  | some name =>
    have made : store = ⟨name, index, offset⟩ ↔
        name = store.name ∧ store.block = index ∧ store.offset = offset := by
      cases store
      simp [eq_comm]
    rw [List.mem_append, List.mem_filter, List.mem_singleton, bne_iff_ne, made, ne_comm]
    simp only [ne_eq, Option.some.injEq]

/-- Going past the rest of a block leads to the stores current at its end, and reads those current
in front of an instruction that reads their variable. -/
theorem goPast_rest (index : Nat) (instrs : List Instruction) (known : List Store)
    (rest : List Instruction) (offset : Nat) (suffix : instrs.drop offset = rest)
    (total : offset + rest.length = instrs.length) (read : List Store) :
    let found := goPast index offset rest (currentAt index instrs known offset) read
    found.1 = currentAt index instrs known instrs.length ∧
      ∀ store, store ∈ found.2 ↔ store ∈ read ∨ ∃ later instr, offset ≤ later ∧
        instrs[later]? = some instr ∧
        store ∈ storesRead instr (currentAt index instrs known later) := by
  induction rest generalizing offset read with
  | nil =>
    obtain rfl : offset = instrs.length := total
    refine ⟨rfl, fun store => ⟨.inl, ?_⟩⟩
    rintro (old | ⟨later, instr, behind, within, -⟩)
    · exact old
    · rw [List.getElem?_eq_none behind] at within
      cases within
  | cons instr rest ih =>
    have within : instrs[offset]? = some instr := by
      rw [← List.head?_drop, suffix, List.head?_cons]
    have suffixToo : instrs.drop (offset + 1) = rest := by
      rw [← List.tail_drop, suffix, List.tail_cons]
    have behind : currentAt index instrs known (offset + 1) =
        currentBehind index offset instr (currentAt index instrs known offset) := by
      rw [currentAt, within]
    rw [List.length_cons] at total
    obtain ⟨leaving, reads⟩ := ih (offset + 1) suffixToo (by omega)
      (Facts.addAll read (storesRead instr (currentAt index instrs known offset)))
    rw [goPast, ← behind]
    refine ⟨leaving, fun store => ?_⟩
    rw [reads, Facts.mem_addAll_iff, or_assoc]
    refine or_congr_right ⟨?_, ?_⟩
    · rintro (here | ⟨later, other, bound, withinToo, readLater⟩)
      · exact ⟨offset, instr, Nat.le_refl _, within, here⟩
      · exact ⟨later, other, by omega, withinToo, readLater⟩
    · rintro ⟨later, other, bound, withinToo, readLater⟩
      rcases Nat.eq_or_lt_of_le bound with rfl | after
      · rw [within, Option.some.injEq] at withinToo
        exact .inl (withinToo ▸ readLater)
      · exact .inr ⟨later, other, after, withinToo, readLater⟩

/-- Going past a block. -/
theorem goPast_block (index : Nat) (instrs : List Instruction) (known read : List Store) :
    (goPast index 0 instrs known read).1 = currentAt index instrs known instrs.length ∧
      ∀ store, store ∈ (goPast index 0 instrs known read).2 ↔ store ∈ read ∨
        ∃ offset instr, instrs[offset]? = some instr ∧
          store ∈ storesRead instr (currentAt index instrs known offset) := by
  obtain ⟨leaving, reads⟩ := goPast_rest index instrs known instrs 0 rfl (Nat.zero_add _) read
  refine ⟨leaving, fun store => (reads store).trans (or_congr_right ?_)⟩
  simp

section Blocks

variable {blocks : List Block} {successors : List (List Nat)}

/-- A store comes to a place when what is read from there is read from behind the store. -/
structure Store.ComesTo (blocks : List Block) (store : Store) (index offset : Nat) : Prop where
  isStore : store ∈ storesOf blocks
  readFrom : ReadFrom blocks store.name index offset →
    ReadFrom blocks store.name store.block (store.offset + 1)

/-- The stores that are current in a block come there, if those known at its start do. -/
theorem comesTo_of_mem_currentAt {index : Nat} {block : Block} (found : blocks[index]? = some block)
    {known : List Store} (comes : ∀ store ∈ known, store.ComesTo blocks index 0)
    {offset : Nat} (inside : offset ≤ block.instrs.length) {store : Store}
    (current : store ∈ currentAt index block.instrs known offset) :
    store.ComesTo blocks index offset := by
  induction offset with
  | zero => exact comes store current
  | succ offset ih =>
    have within := List.getElem?_eq_getElem inside
    rw [currentAt, within] at current
    rcases (mem_currentBehind_iff index offset _ _ store).1 current with
      ⟨before, keeps⟩ | ⟨writes, stands⟩
    · obtain ⟨isStore, readFrom⟩ := ih (Nat.le_of_lt inside) before
      exact ⟨isStore, fun ahead => readFrom (.past found within keeps ahead)⟩
    · obtain ⟨rfl, rfl⟩ := Prod.mk.inj stands
      refine ⟨(mem_storesOf_iff blocks store).2 ⟨_, ?_, writes⟩, id⟩
      rw [Store.instr?, found, Option.bind_some, within]

/-- The stores that are current at the end of a block come to its successors. -/
theorem comesTo_next {index : Nat} {block : Block} (found : blocks[index]? = some block)
    {known : List Store} (comes : ∀ store ∈ known, store.ComesTo blocks index 0)
    {next : Nat} (follows : GoesTo blocks index next) {store : Store}
    (leaves : store ∈ currentAt index block.instrs known block.instrs.length) :
    store.ComesTo blocks next 0 := by
  obtain ⟨isStore, readFrom⟩ := comesTo_of_mem_currentAt found comes (Nat.le_refl _) leaves
  exact ⟨isStore, fun ahead => readFrom (.into found follows ahead)⟩

/-- A store that comes to an instruction which reads its variable is read. -/
theorem Store.ComesTo.read {store : Store} {index offset : Nat} {block : Block}
    {instr : Instruction} {current : List Store} (found : blocks[index]? = some block)
    (within : block.instrs[offset]? = some instr)
    (comes : ∀ store ∈ current, store.ComesTo blocks index offset)
    (reads : store ∈ storesRead instr current) :
    ReadFrom blocks store.name store.block (store.offset + 1) := by
  obtain ⟨member, isRead⟩ := List.mem_filter.1 reads
  exact (comes store member).readFrom (.here found within (by simpa using isRead))

namespace Walk

/-- What a walk takes along has come there from the first block, and what it has found read is read
from behind the store. -/
structure Sound (blocks : List Block) (walk : Walk) : Prop where
  pending : ∀ visit ∈ walk.pending, Relation.ReflTransGen (GoesTo blocks) 0 visit.1 ∧
    ∀ store ∈ visit.2, store.ComesTo blocks visit.1 0
  entered : ∀ index known, walk.entered[index]? = some known →
    Relation.ReflTransGen (GoesTo blocks) 0 index ∧ Facts.Distinct known ∧
      ∀ store ∈ known, store.ComesTo blocks index 0
  read : ∀ store ∈ walk.read, ReadFrom blocks store.name store.block (store.offset + 1)

/-- Stores have been taken to a block, or are about to be. -/
def TakesTo (walk : Walk) (index : Nat) (stores : List Store) : Prop :=
  (∃ known, walk.entered[index]? = some known ∧ stores ⊆ known) ∨
    ∃ visit ∈ walk.pending, visit.1 = index ∧ stores ⊆ visit.2

/-- A walk has gone past the blocks that it has entered, with all that came there. -/
structure Closed (blocks : List Block) (walk : Walk) : Prop where
  first : walk.TakesTo 0 []
  reads : ∀ (index : Nat) (known : List Store) (block : Block) (offset : Nat) (instr : Instruction),
    walk.entered[index]? = some known → blocks[index]? = some block →
    block.instrs[offset]? = some instr →
    storesRead instr (currentAt index block.instrs known offset) ⊆ walk.read
  next : ∀ (index : Nat) (known : List Store) (block : Block) (target : Nat),
    walk.entered[index]? = some known → blocks[index]? = some block →
    GoesTo blocks index target →
    walk.TakesTo target (currentAt index block.instrs known block.instrs.length)

/-- A walk is sound at its start. -/
theorem sound_start : Sound blocks {} := by
  refine ⟨fun visit member => ?_, by simp, by simp⟩
  rw [List.mem_singleton.1 member]
  exact ⟨.refl, nofun⟩

/-- A walk is closed at its start. -/
theorem closed_start : Closed blocks {} :=
  ⟨.inr ⟨_, List.mem_singleton_self _, rfl, List.Subset.refl _⟩, by simp, by simp⟩

variable {walk : Walk} {index : Nat} {current : List Store} {pending : List (Nat × List Store)}

/-- The stores known at a block that is entered: those that came there before or now. -/
def knownAt (walk : Walk) (index : Nat) (current : List Store) : List Store :=
  Facts.union ((walk.entered[index]?).getD []) current

/-- What came to a block that is entered came there before or now. -/
theorem mem_knownAt_iff (walk : Walk) (index : Nat) (current : List Store) (store : Store) :
    store ∈ walk.knownAt index current ↔
      (∃ known, walk.entered[index]? = some known ∧ store ∈ known) ∨ store ∈ current := by
  rw [knownAt, Facts.union, Facts.mem_addAll_iff, Facts.mem_addAll_iff]
  cases walk.entered[index]? <;> simp

/-- A block is known with stores when all of them came there before. -/
theorem knows_iff (walk : Walk) (index : Nat) (current : List Store) :
    walk.knows index current = true ↔
      ∃ known, walk.entered[index]? = some known ∧ current ⊆ known := by
  rw [knows, Option.any_eq_true]
  refine exists_congr fun known => and_congr_right fun _ => ?_
  simp only [List.all_eq_true, Facts.has_iff]
  rfl

/-- What remains of a sound walk without its first pending visit is sound. -/
theorem Sound.skip (sound : Sound blocks walk)
    (next : walk.pending = (index, current) :: pending) :
    Sound blocks { walk with pending } :=
  ⟨fun visit member => sound.pending visit (next ▸ List.mem_cons_of_mem _ member), sound.entered,
    sound.read⟩

/-- A visit that is already known need not be pending. -/
theorem Closed.skip (closed : Closed blocks walk)
    (next : walk.pending = (index, current) :: pending) (known : walk.knows index current = true) :
    Closed blocks { walk with pending } := by
  have takes {target : Nat} {stores : List Store} (before : walk.TakesTo target stores) :
      TakesTo { walk with pending } target stores := by
    rcases before with entered | ⟨visit, member, rfl, among⟩
    · exact .inl entered
    · rw [next] at member
      rcases List.mem_cons.1 member with rfl | other
      · obtain ⟨seen, isSeen, covers⟩ := (knows_iff walk index current).1 known
        exact .inl ⟨seen, isSeen, fun store member => covers (among member)⟩
      · exact .inr ⟨visit, other, rfl, among⟩
  exact ⟨takes closed.first, closed.reads, fun index known block target entered found follows =>
    takes (closed.next index known block target entered found follows)⟩

/-- Behind the block that it enters, a walk takes the current stores to the successors. -/
theorem pending_enter (walk : Walk) (index : Nat) (current : List Store) {block : Block}
    (found : blocks[index]? = some block) :
    (walk.enter blocks successors index current).pending =
      ((successors[index]?).getD []).map
          (·, currentAt index block.instrs (walk.knownAt index current) block.instrs.length) ++
        walk.pending := by
  rw [← (goPast_block index block.instrs (walk.knownAt index current) walk.read).1, enter, found]
  rfl

/-- Behind the block that it enters, a walk takes the current stores to where control goes. -/
theorem mem_pending_enter_iff (table : successorTable blocks = .ok successors) (walk : Walk)
    (index : Nat) (current : List Store) {block : Block} (found : blocks[index]? = some block)
    (visit : Nat × List Store) :
    visit ∈ (walk.enter blocks successors index current).pending ↔
      (GoesTo blocks index visit.1 ∧ visit.2 =
        currentAt index block.instrs (walk.knownAt index current) block.instrs.length) ∨
      visit ∈ walk.pending := by
  rw [pending_enter walk index current found, List.mem_append, List.mem_map]
  simp only [mem_successors_iff_goesTo table]
  refine or_congr_left ⟨?_, ?_⟩
  · rintro ⟨target, follows, rfl⟩
    exact ⟨follows, rfl⟩
  · rintro ⟨follows, same⟩
    exact ⟨visit.1, follows, Prod.ext rfl same.symm⟩

/-- A walk enters the block with the stores known there. -/
theorem entered_enter (walk : Walk) (index : Nat) (current : List Store) (other : Nat) :
    (walk.enter blocks successors index current).entered[other]? =
      if index = other then some (walk.knownAt index current) else walk.entered[other]? := by
  simp only [enter, knownAt, Std.TreeMap.getElem?_insert, Std.LawfulEqCmp.compare_eq_iff_eq]

/-- In the block that it enters, a walk finds read what the instructions read. -/
theorem mem_read_enter_iff (walk : Walk) (index : Nat) (current : List Store) {block : Block}
    (found : blocks[index]? = some block) (store : Store) :
    store ∈ (walk.enter blocks successors index current).read ↔ store ∈ walk.read ∨
      ∃ offset instr, block.instrs[offset]? = some instr ∧ store ∈ storesRead instr
        (currentAt index block.instrs (walk.knownAt index current) offset) := by
  rw [← (goPast_block index block.instrs (walk.knownAt index current) walk.read).2, enter, found]
  rfl

/-- What is known at a block that a sound walk enters has come there. -/
theorem Sound.knownAt (sound : Sound blocks walk)
    (next : walk.pending = (index, current) :: pending) {store : Store}
    (member : store ∈ walk.knownAt index current) : store.ComesTo blocks index 0 := by
  rcases (mem_knownAt_iff walk index current store).1 member with ⟨known, entered, old⟩ | new
  · exact (sound.entered index known entered).2.2 store old
  · exact (sound.pending (index, current) (next ▸ List.mem_cons_self)).2 store new

/-- A sound walk enters the block of its first pending visit soundly. -/
theorem Sound.enter (table : successorTable blocks = .ok successors) (sound : Sound blocks walk)
    (next : walk.pending = (index, current) :: pending) {block : Block}
    (found : blocks[index]? = some block) :
    Sound blocks (Walk.enter blocks successors { walk with pending } index current) := by
  have reachable := (sound.pending (index, current) (next ▸ List.mem_cons_self)).1
  have comes : ∀ store ∈ walk.knownAt index current, store.ComesTo blocks index 0 :=
    fun store member => sound.knownAt next member
  constructor
  · intro visit member
    rcases (mem_pending_enter_iff table _ index current found visit).1 member with
      ⟨follows, leaving⟩ | later
    · refine ⟨reachable.tail follows, fun store leaves => ?_⟩
      rw [leaving] at leaves
      exact comesTo_next found comes follows leaves
    · exact sound.pending visit (next ▸ List.mem_cons_of_mem _ later)
  · intro other known entered
    rw [entered_enter] at entered
    split at entered
    next same =>
      obtain rfl := Option.some.inj entered
      subst same
      exact ⟨reachable, Facts.distinct_union _ _, comes⟩
    next => exact sound.entered other known entered
  · intro store member
    rcases (mem_read_enter_iff _ index current found store).1 member with
      old | ⟨offset, instr, within, reads⟩
    · exact sound.read store old
    · have inside := (List.getElem?_eq_some_iff.1 within).1
      exact Store.ComesTo.read found within
        (fun store member => comesTo_of_mem_currentAt found comes (Nat.le_of_lt inside) member)
        reads

/-- What was taken somewhere is still taken there when the first pending visit is made. -/
theorem TakesTo.enter (table : successorTable blocks = .ok successors) {target : Nat}
    {stores : List Store} (takes : walk.TakesTo target stores)
    (next : walk.pending = (index, current) :: pending) {block : Block}
    (found : blocks[index]? = some block) :
    TakesTo (Walk.enter blocks successors { walk with pending } index current) target stores := by
  have visited (among : ∀ store ∈ stores, store ∈ walk.knownAt index current) :
      TakesTo (Walk.enter blocks successors { walk with pending } index current) index stores :=
    .inl ⟨walk.knownAt index current, by rw [entered_enter, if_pos rfl]; rfl, among⟩
  rcases takes with ⟨known, entered, among⟩ | ⟨visit, member, rfl, among⟩
  · by_cases same : index = target
    · subst same
      exact visited fun store member =>
        (mem_knownAt_iff walk index current store).2 (.inl ⟨known, entered, among member⟩)
    · exact .inl ⟨known, by rw [entered_enter, if_neg same]; exact entered, among⟩
  · rw [next] at member
    rcases List.mem_cons.1 member with rfl | other
    · exact visited fun store member =>
        (mem_knownAt_iff walk index current store).2 (.inr (among member))
    · exact .inr ⟨visit, (mem_pending_enter_iff table _ index current found visit).2 (.inr other),
        rfl, among⟩

/-- A closed walk is closed when it has entered the block of its first pending visit. -/
theorem Closed.enter (table : successorTable blocks = .ok successors) (closed : Closed blocks walk)
    (next : walk.pending = (index, current) :: pending) {block : Block}
    (found : blocks[index]? = some block) :
    Closed blocks
      (Walk.enter blocks successors { walk with pending } index current) := by
  constructor
  · exact closed.first.enter table next found
  · intro other known block offset instr entered stands within store reads
    rw [mem_read_enter_iff _ index current found]
    rw [entered_enter] at entered
    split at entered
    next same =>
      obtain rfl := Option.some.inj entered
      subst same
      obtain rfl := Option.some.inj (found.symm.trans stands)
      exact .inr ⟨offset, instr, within, reads⟩
    next =>
      exact .inl (closed.reads other known block offset instr entered stands within reads)
  · intro other known block target entered stands follows
    rw [entered_enter] at entered
    split at entered
    next same =>
      obtain rfl := Option.some.inj entered
      subst same
      obtain rfl := Option.some.inj (found.symm.trans stands)
      exact .inr ⟨(target, _), (mem_pending_enter_iff table _ index current found _).2
        (.inl ⟨follows, rfl⟩), rfl, List.Subset.refl _⟩
    next =>
      exact (closed.next other known block target entered stands follows).enter table next found

/-- How many more times a walk can enter a block: each time but the first, a store comes there that
has not come there before. -/
def room (blocks : List Block) (walk : Walk) (index : Nat) : Nat :=
  match walk.entered[index]? with
  | none => (storesOf blocks).length + 1
  | some known => (storesOf blocks).length - known.length

/-- How often a walk can still take something up: what is pending, and what follows each block as
often as the block can still be entered. -/
def ahead (blocks : List Block) (successors : List (List Nat)) (walk : Walk) : Nat :=
  walk.pending.length + ∑ index ∈ Finset.range successors.length,
    ((successors[index]?).getD []).length * room blocks walk index

/-- At the start of a walk no more lies ahead than the limit. -/
theorem ahead_start (blocks : List Block) (successors : List (List Nat)) :
    ahead blocks successors {} = limit blocks successors := by
  have whole (index : Nat) : room blocks {} index = (storesOf blocks).length + 1 := by simp [room]
  simp only [ahead, limit, whole, ← sum_range_length, Finset.sum_mul]
  rfl

/-- A visit that brings something new to a block leaves less room there, and as much elsewhere. -/
theorem Sound.room_enter (successors : List (List Nat)) (sound : Sound blocks walk)
    (next : walk.pending = (index, current) :: pending)
    (new : walk.knows index current = false) (other : Nat) :
    room blocks (Walk.enter blocks successors { walk with pending } index current) other +
      (if index = other then 1 else 0) ≤ room blocks walk other := by
  rw [room, entered_enter]
  by_cases same : index = other
  · subst same
    have distinct : Facts.Distinct (walk.knownAt index current) := Facts.distinct_union _ _
    have atMost : (walk.knownAt index current).length ≤ (storesOf blocks).length :=
      distinct.length_le fun store present => by
        rw [Facts.has_iff] at present ⊢
        exact (sound.knownAt next present).isStore
    simp only [if_true]
    change (storesOf blocks).length - (walk.knownAt index current).length + 1 ≤ _
    rw [room]
    split
    next => omega
    next known entered =>
      -- What came now and is not known adds to what came before.
      obtain ⟨store, isNew, unknown⟩ : ∃ store ∈ current, store ∉ known := by
        by_contra all
        push Not at all
        rw [(knows_iff walk index current).2 ⟨known, entered, all⟩] at new
        cases new
      have covered (store : Store) (present : store ∈ known) : store ∈ walk.knownAt index current :=
        (mem_knownAt_iff walk index current store).2 (.inl ⟨known, entered, present⟩)
      have added := (mem_knownAt_iff walk index current store).2 (.inr isNew)
      have more : known.length < (walk.knownAt index current).length := by
        refine (sound.entered index known entered).2.1.length_lt ?_
          ((Facts.has_iff _ store).2 added) ?_
        · simpa only [Facts.has_iff] using covered
        · rwa [← Bool.not_eq_true, Facts.has_iff]
      omega
  · simp only [if_neg same]
    exact Nat.le_refl _

/-- Less lies ahead of a walk when it has made its first pending visit. -/
theorem Sound.ahead_enter (successors : List (List Nat)) (sound : Sound blocks walk)
    (next : walk.pending = (index, current) :: pending)
    (new : walk.knows index current = false) {block : Block}
    (found : blocks[index]? = some block) :
    ahead blocks successors (Walk.enter blocks successors { walk with pending } index current) + 1 ≤
      ahead blocks successors walk := by
  have less (other : Nat) := sound.room_enter successors next new other
  have outside : index ∉ Finset.range successors.length → (successors[index]?).getD [] = [] := by
    intro beyond
    rw [List.getElem?_eq_none (by simpa using beyond), Option.getD_none]
  have rooms := Finset.sum_le_sum fun other (_ : other ∈ Finset.range successors.length) =>
    Nat.mul_le_mul_left ((successors[other]?).getD []).length (less other)
  simp only [Nat.mul_add, Finset.sum_add_distrib, mul_ite, Nat.mul_one, Nat.mul_zero,
    Finset.sum_ite_eq] at rooms
  rw [ahead, ahead, pending_enter _ index current found, next, List.length_append, List.length_map,
    List.length_cons]
  change _ + pending.length + _ + 1 ≤ _
  split at rooms
  · omega
  next beyond =>
    rw [outside beyond, List.length_nil]
    omega

/-- A skipped visit is one less. -/
theorem ahead_skip (blocks : List Block) (successors : List (List Nat))
    (next : walk.pending = (index, current) :: pending) :
    ahead blocks successors { walk with pending } + 1 = ahead blocks successors walk := by
  rw [ahead, ahead, next, List.length_cons]
  change pending.length + _ + 1 = pending.length + 1 + _
  exact Nat.add_right_comm _ _ _

/-- A walk that may go on as long as something lies ahead ends, soundly and closed. -/
theorem run_ends (table : successorTable blocks = .ok successors) (filled : blocks ≠ [])
    (allowed : Nat) (sound : Sound blocks walk) (closed : Closed blocks walk)
    (enough : ahead blocks successors walk ≤ allowed) :
    (run blocks successors allowed walk).pending = [] ∧
      Sound blocks (run blocks successors allowed walk) ∧
      Closed blocks (run blocks successors allowed walk) := by
  induction allowed generalizing walk with
  | zero =>
    rw [ahead] at enough
    exact ⟨List.length_eq_zero_iff.1 (by rw [run]; omega), sound, closed⟩
  | succ allowed ih =>
    rw [run]
    split
    next nothing => exact ⟨nothing, sound, closed⟩
    next index current pending next =>
      dsimp only
      split
      next known =>
        have fewer := ahead_skip blocks successors next
        exact ih (sound.skip next) (closed.skip next known) (by omega)
      next new =>
        have reachable := (sound.pending (index, current) (next ▸ List.mem_cons_self)).1
        have found := List.getElem?_eq_getElem (lt_of_reachable filled reachable)
        have fewer := sound.ahead_enter successors next (Bool.eq_false_iff.2 new) found
        exact ih (sound.enter table next found) (closed.enter table next found) (by omega)

/-- The walk through blocks whose successors are found ends, soundly and closed. -/
theorem through_ends (table : successorTable blocks = .ok successors) (filled : blocks ≠ []) :
    (through blocks successors).pending = [] ∧
      Sound blocks (through blocks successors) ∧
      Closed blocks (through blocks successors) :=
  run_ends table filled _ sound_start closed_start (Nat.le_of_eq (ahead_start blocks successors))

/-- When nothing is pending, what was taken somewhere is known there. -/
theorem TakesTo.known {target : Nat} {stores : List Store} (takes : walk.TakesTo target stores)
    (ended : walk.pending = []) :
    ∃ known, walk.entered[target]? = some known ∧ stores ⊆ known := by
  rcases takes with known | ⟨visit, member, -⟩
  · exact known
  · rw [ended] at member
    cases member

/-- A walk that has ended has entered what control can reach. -/
theorem Closed.entered_of_reachable (closed : Closed blocks walk) (filled : blocks ≠ [])
    (ended : walk.pending = []) {index : Nat}
    (reachable : Relation.ReflTransGen (GoesTo blocks) 0 index) :
    ∃ known, walk.entered[index]? = some known := by
  induction reachable with
  | refl =>
    obtain ⟨known, entered, -⟩ := closed.first.known ended
    exact ⟨known, entered⟩
  | @tail source target reaches follows ih =>
    obtain ⟨known, entered⟩ := ih
    have found := List.getElem?_eq_getElem (lt_of_reachable filled reaches)
    obtain ⟨seen, enteredToo, -⟩ :=
      (closed.next source known _ target entered found follows).known ended
    exact ⟨seen, enteredToo⟩

/-- A walk that has ended has found read every store that is current where a read lies ahead. -/
theorem Closed.mem_read (closed : Closed blocks walk) (ended : walk.pending = [])
    {name : String} {index offset : Nat} (ahead : ReadFrom blocks name index offset)
    {block : Block} (found : blocks[index]? = some block) {known : List Store}
    (entered : walk.entered[index]? = some known) {store : Store} (same : store.name = name)
    (current : store ∈ currentAt index block.instrs known offset) : store ∈ walk.read := by
  induction ahead generalizing block known with
  | @here index offset other instr stands within reads =>
    obtain rfl := Option.some.inj (found.symm.trans stands)
    refine closed.reads index known block offset instr entered found within ?_
    exact List.mem_filter.2 ⟨current, by simpa [same] using reads⟩
  | @past index offset other instr stands within keeps _ ih =>
    obtain rfl := Option.some.inj (found.symm.trans stands)
    refine ih found entered ?_
    rw [currentAt, within]
    exact (mem_currentBehind_iff index offset instr _ store).2 (.inl ⟨current, same ▸ keeps⟩)
  | @into index next other stands follows later ih =>
    obtain rfl := Option.some.inj (found.symm.trans stands)
    obtain ⟨seen, enteredToo, among⟩ :=
      (closed.next index known block next entered found follows).known ended
    obtain ⟨behind, foundToo⟩ := later.exists_block
    exact ih foundToo enteredToo (among current)

/-- The walk has found read those stores of the blocks that control reaches from which control can
come to a read. -/
theorem mem_read_through_iff (table : successorTable blocks = .ok successors) (filled : blocks ≠ [])
    {store : Store} (isStore : store ∈ storesOf blocks)
    (reachable : Relation.ReflTransGen (GoesTo blocks) 0 store.block) :
    store ∈ (through blocks successors).read ↔
      ReadFrom blocks store.name store.block (store.offset + 1) := by
  obtain ⟨ended, sound, closed⟩ := through_ends table filled
  refine ⟨sound.read store, fun ahead => ?_⟩
  obtain ⟨instr, stands, writes⟩ := (mem_storesOf_iff blocks store).1 isStore
  obtain ⟨block, found, within⟩ := Option.bind_eq_some_iff.1 stands
  obtain ⟨known, entered⟩ := closed.entered_of_reachable filled ended reachable
  refine closed.mem_read ended ahead found entered rfl ?_
  rw [currentAt, within]
  exact (mem_currentBehind_iff store.block store.offset instr _ store).2 (.inr ⟨writes, rfl⟩)

/-- The walk leaves dead what is a dead store. -/
theorem leavesDead_through_iff (table : successorTable blocks = .ok successors)
    (filled : blocks ≠ []) {store : Store} (isStore : store ∈ storesOf blocks) :
    (through blocks successors).leavesDead blocks store = true ↔
      IsDeadStore blocks store.block store.offset := by
  obtain ⟨ended, sound, closed⟩ := through_ends table filled
  obtain ⟨instr, stands, writes⟩ := (mem_storesOf_iff blocks store).1 isStore
  obtain ⟨block, found, within⟩ := Option.bind_eq_some_iff.1 stands
  have enters : (through blocks successors).entered.contains store.block = true ↔
      Relation.ReflTransGen (GoesTo blocks) 0 store.block := by
    rw [Std.TreeMap.contains_eq_isSome_getElem?, Option.isSome_iff_exists]
    exact ⟨fun ⟨known, entered⟩ => (sound.entered store.block known entered).1,
      closed.entered_of_reachable filled ended⟩
  rw [leavesDead, stands, Option.any_some, Bool.and_eq_true, Bool.and_eq_true, enters,
    Bool.not_eq_true', Bool.not_eq_true', ← Bool.not_eq_true, Facts.has_iff, IsDeadStore, and_assoc]
  refine and_congr_right fun reachable => ?_
  rw [mem_read_through_iff table filled isStore reachable]
  constructor
  · rintro ⟨unread, pure⟩
    exact ⟨block, instr, store.name, found, within, writes, pure, unread⟩
  · rintro ⟨other, same, name, foundToo, withinToo, writesToo, pure, unread⟩
    obtain rfl := Option.some.inj (found.symm.trans foundToo)
    obtain rfl := Option.some.inj (within.symm.trans withinToo)
    obtain rfl := Option.some.inj (writes.symm.trans writesToo)
    exact ⟨unread, pure⟩

end Walk

end Blocks

/-- The dead stores of blocks are found when their successors are. -/
theorem deadStores_of_table {blocks : List Block} {successors : List (List Nat)}
    (table : successorTable blocks = .ok successors) :
    deadStores blocks = .ok
      (((storesOf blocks).filter ((Walk.through blocks successors).leavesDead blocks)).map
        Store.place) := by
  rw [deadStores, table]
  rfl

/-- What is found are the dead stores. -/
theorem mem_deadStores_iff {blocks : List Block} {successors : List (List Nat)}
    (table : successorTable blocks = .ok successors) {dead : List (Nat × Nat)}
    (computed : deadStores blocks = .ok dead) (index offset : Nat) :
    (index, offset) ∈ dead ↔ IsDeadStore blocks index offset := by
  rw [deadStores_of_table table] at computed
  rw [← Except.ok.inj computed, List.mem_map]
  constructor
  · rintro ⟨store, member, same⟩
    obtain ⟨rfl, rfl⟩ := Prod.mk.inj same
    obtain ⟨isStore, isDead⟩ := List.mem_filter.1 member
    have filled : blocks ≠ [] := by
      rintro rfl
      cases isStore
    exact (Walk.leavesDead_through_iff table filled isStore).1 isDead
  · intro isDead
    have parts := isDead
    obtain ⟨-, block, instr, name, found, within, writes, -, -⟩ := parts
    have filled : blocks ≠ [] := List.ne_nil_of_mem (List.mem_of_getElem? found)
    have isStore : (⟨name, index, offset⟩ : Store) ∈ storesOf blocks :=
      (mem_storesOf_iff blocks _).2
        ⟨instr, Option.bind_eq_some_iff.2 ⟨block, found, within⟩, writes⟩
    exact ⟨_, List.mem_filter.2
      ⟨isStore, (Walk.leavesDead_through_iff table filled isStore).2 isDead⟩, rfl⟩

end Midend
