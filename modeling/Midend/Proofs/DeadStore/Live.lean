import Midend.Proofs.Block.Flow
import Midend.Proofs.DeadStore.Walk

/-!
# Live variables

A variable is live at a place of a body when control can come from there to an instruction that
reads it, without meeting one that writes it before. In laid out blocks every such read lies ahead
of the place, so that a variable is not live behind a dead store to it.
-/

namespace Midend

open Lang

/-- Control can come from a place to a read of a variable before a write to it. -/
inductive Live (body : List Entry) (name : String) : Nat → Prop
  | read {place : Nat} {instr : Instruction} (found : body[place]? = some (.instr instr))
    (reads : name ∈ instr.args) : Live body name place
  | later {place next : Nat}
    (keeps : ∀ instr, body[place]? = some (.instr instr) → instr.dest? ≠ some name)
    (follows : next ∈ placesBehind body place) (live : Live body name next) : Live body name place

/-- Behind the end of a body nothing is live. -/
theorem Live.inside {body : List Entry} {name : String} {place : Nat}
    (live : Live body name place) : place < body.length := by
  cases live with
  | read found => exact (List.getElem?_eq_some_iff.1 found).1
  | later _ follows =>
    by_contra beyond
    rw [placesBehind, List.getElem?_eq_none (by omega)] at follows
    simp at follows

/-- A variable that is live behind an instruction which does not write it is live in front of it. -/
theorem live_of_behind {body : List Entry} {place next : Nat} {instr : Instruction}
    (found : body[place]? = some (.instr instr)) (follows : next ∈ placesBehind body place)
    {name : String} (keeps : instr.dest? ≠ some name) (live : Live body name next) :
    Live body name place := by
  refine .later (fun other stands => ?_) follows live
  rw [found, Option.some.injEq, Entry.instr.injEq] at stands
  exact stands ▸ keeps

section Laid

variable {blocks : List Block} {successors : List (List Nat)} {name : String}

/-- A variable that is live at a place is read from there on, at the start of a block or in it. -/
def FindsReads (blocks : List Block) (name : String) (place index : Nat) (block : Block) : Prop :=
  (place = startOf blocks index → ReadFrom blocks name index 0) ∧
  ∀ offset ≤ block.instrs.length, place = startOf blocks index + (block.width + offset) →
    (offset = block.instrs.length → block.terminator? = none) → ReadFrom blocks name index offset

/-- Live variables are read from the end of a block on when they are from the start of the block
behind. -/
theorem Laid.findsReads_end (laid : Laid blocks) (table : successorTable blocks = .ok successors)
    {place index : Nat} {block : Block} (found : blocks[index]? = some block)
    (live : Live (blocks.flatMap Block.code) name place)
    (ends : place = startOf blocks index + (block.width + block.instrs.length))
    (goesOn : block.terminator? = none)
    (behind : ∀ (block : Block), blocks[index + 1]? = some block →
      FindsReads blocks name place (index + 1) block) :
    ReadFrom blocks name index block.instrs.length := by
  have next : startOf blocks (index + 1) = place := by
    rw [startOf, offsetOf_succ Block.code found, Block.length_code]
    exact ends.symm
  have more : index + 1 < blocks.length := by
    by_contra beyond
    rw [startOf, offsetOf_of_length_le Block.code (by omega)] at next
    have inside := live.inside
    omega
  have stands := List.getElem?_eq_getElem more
  have follows := (laid.mem_successors_onward table found goesOn (index + 1)).2 ⟨rfl, more⟩
  exact .into found ((mem_successors_iff_goesTo table _ _).1 follows)
    ((behind _ stands).1 next.symm)

/-- Live variables are read from everywhere on when they are from the labels and the instructions of
blocks. -/
theorem Laid.findsReads_of_entries (laid : Laid blocks)
    (table : successorTable blocks = .ok successors) {place : Nat}
    (live : Live (blocks.flatMap Block.code) name place)
    (atInstr : ∀ index (block : Block) offset instr, blocks[index]? = some block →
      block.instrs[offset]? = some instr → place = startOf blocks index + (block.width + offset) →
      ReadFrom blocks name index offset)
    (atLabel : ∀ index (block : Block), blocks[index]? = some block → place = startOf blocks index →
      block.synthetic = false → ReadFrom blocks name index 0)
    (gap index : Nat) (total : index + gap = blocks.length) (block : Block)
    (found : blocks[index]? = some block) : FindsReads blocks name place index block := by
  -- The induction goes over the blocks behind, since empty ones start at the same place.
  induction gap generalizing index block with
  | zero =>
    have inside := (List.getElem?_eq_some_iff.1 found).1
    omega
  | succ gap ih =>
    have within : ∀ offset ≤ block.instrs.length,
        place = startOf blocks index + (block.width + offset) →
        (offset = block.instrs.length → block.terminator? = none) →
        ReadFrom blocks name index offset := by
      intro offset bound at_offset goesOn
      by_cases last : offset = block.instrs.length
      · rw [last]
        exact laid.findsReads_end table found live (last ▸ at_offset) (goesOn last)
          fun other behind => ih (index + 1) (by omega) other behind
      · have early : offset < block.instrs.length := by omega
        exact atInstr index block offset _ found (List.getElem?_eq_getElem early) at_offset
    refine ⟨fun starts => ?_, within⟩
    cases invented : block.synthetic with
    | false => exact atLabel index block found starts invented
    | true =>
      refine within 0 (Nat.zero_le _) ?_ fun empty => ?_
      · rw [starts, Block.width, invented]
        rfl
      · rw [Block.terminator?, List.length_eq_zero_iff.1 empty.symm]
        rfl

/-- The entry at the start of a block with a label is that label. -/
theorem getElem?_startOf {index : Nat} {block : Block} (found : blocks[index]? = some block)
    (visible : block.synthetic = false) :
    (blocks.flatMap Block.code)[startOf blocks index]? =
      some (.label block.label block.labelPos) := by
  have filled : 0 < block.code.length := by
    rw [Block.length_code, Block.width, visible, if_neg Bool.false_ne_true]
    omega
  rw [← Nat.add_zero (startOf blocks index), startOf,
    getElem?_flatMap_offsetOf Block.code found filled, Block.code, visible]
  rfl

/-- A variable is read from an instruction on that does not write it when it is read from where
control comes behind. -/
theorem Laid.readFrom_of_behind (laid : Laid blocks)
    (table : successorTable blocks = .ok successors) {index : Nat} {block : Block}
    (found : blocks[index]? = some block) {offset : Nat} {instr : Instruction}
    (within : block.instrs[offset]? = some instr) (keeps : instr.dest? ≠ some name) {next : Nat}
    (follows : next ∈ placesBehind (blocks.flatMap Block.code)
      (startOf blocks index + (block.width + offset)))
    (behind : ∀ index (block : Block), blocks[index]? = some block →
      FindsReads blocks name next index block) : ReadFrom blocks name index offset := by
  obtain ⟨inside, rfl⟩ := List.getElem?_eq_some_iff.1 within
  have stands := getElem?_flatMap_code found inside
  rw [within, Option.map_some] at stands
  refine .past found within keeps ?_
  cases leaves : block.instrs[offset].isTerminator with
  | true =>
    obtain ⟨target, member, rfl⟩ :=
      (laid.mem_placesBehind_terminator table found within leaves next).1 follows
    have last := ((laid.ends index block found).eq_last within leaves).1
    have stands := List.getElem?_eq_getElem (lt_of_mem_successors table member)
    rw [last]
    exact .into found ((mem_successors_iff_goesTo table _ _).1 member) ((behind _ _ stands).1 rfl)
  | false =>
    rw [placesBehind_onward stands leaves, List.mem_singleton] at follows
    exact (behind index block found).2 (offset + 1) inside (by omega) fun last =>
      Block.terminator?_eq_none within last leaves

/-- A variable is read from everywhere on where it is live. -/
theorem Laid.findsReads (laid : Laid blocks) (table : successorTable blocks = .ok successors)
    {place : Nat} (live : Live (blocks.flatMap Block.code) name place) (index : Nat)
    (block : Block) (found : blocks[index]? = some block) :
    FindsReads blocks name place index block := by
  have whole := live
  induction live generalizing index block with
  | @read place instr stands reads =>
    have bound := (List.getElem?_eq_some_iff.1 found).1
    refine laid.findsReads_of_entries table whole ?_ ?_ (blocks.length - index) index (by omega)
      block found
    · rintro index block offset other found within rfl
      obtain ⟨inside, rfl⟩ := List.getElem?_eq_some_iff.1 within
      rw [getElem?_flatMap_code found inside, within] at stands
      obtain rfl : block.instrs[offset] = instr := by simpa using stands
      exact .here found within reads
    · rintro index block found rfl visible
      rw [getElem?_startOf found visible] at stands
      simp at stands
  | @later place next keeps follows live ih =>
    have bound := (List.getElem?_eq_some_iff.1 found).1
    refine laid.findsReads_of_entries table whole ?_ ?_ (blocks.length - index) index (by omega)
      block found
    · rintro index block offset instr found within rfl
      have stands := getElem?_flatMap_code found (List.getElem?_eq_some_iff.1 within).1
      rw [within, Option.map_some] at stands
      exact laid.readFrom_of_behind table found within (keeps _ stands) follows
        fun index block found => ih index block found live
    · rintro index block found rfl visible
      rw [placesBehind, getElem?_startOf found visible, List.mem_singleton] at follows
      refine (ih index block found live).2 0 (Nat.zero_le _) ?_ fun empty => ?_
      · rw [follows, Block.width, visible, if_neg Bool.false_ne_true]
      · rw [Block.terminator?, List.length_eq_zero_iff.1 empty.symm]
        rfl

end Laid

/-- An instruction that does no more than write a variable that is not live behind it. -/
def IsIdle (body : List Entry) (place : Nat) (instr : Instruction) : Prop :=
  instr.hasSideEffects = false ∧
    ∃ name, instr.dest? = some name ∧ ¬Live body name (place + 1)

/-- Instructions without further effects are no terminators. -/
theorem isTerminator_of_pure {instr : Instruction} (pure : instr.hasSideEffects = false) :
    instr.isTerminator = false := by
  cases instr with
  | const => rfl
  | value => rfl
  | effect => simp [Instruction.hasSideEffects] at pure

/-- A dead store does no more than write a variable that is not live behind it. -/
theorem Laid.isIdle_of_mem {blocks : List Block} (laid : Laid blocks)
    {dead : List (Nat × Nat)} (computed : deadStores blocks = .ok dead) {index offset : Nat}
    {block : Block} {instr : Instruction} (found : blocks[index]? = some block)
    (within : block.instrs[offset]? = some instr) (member : (index, offset) ∈ dead) :
    IsIdle (blocks.flatMap Block.code) (startOf blocks index + (block.width + offset)) instr := by
  obtain ⟨successors, table⟩ := laid.exists_successorTable
  obtain ⟨-, other, store, name, stands, isStore, writes, pure, unread⟩ :=
    (mem_deadStores_iff table computed index offset).1 member
  obtain rfl := Option.some.inj (found.symm.trans stands)
  obtain rfl := Option.some.inj (within.symm.trans isStore)
  refine ⟨pure, name, writes, fun live => unread ?_⟩
  have inside := (List.getElem?_eq_some_iff.1 within).1
  exact (laid.findsReads table live index block found).2 (offset + 1) inside (by omega)
    fun last => Block.terminator?_eq_none within last (isTerminator_of_pure pure)

end Midend
