import Midend.Proofs.Block.Places
import Mathlib.Data.List.SplitBy

/-!
# Where blocks begin

Splitting a function into blocks loses nothing, and it splits the body just where it has to: at the
first entry, at every label, and directly behind every terminator. The code of the blocks is the
body parted between any two neighbours that may not share a block.
-/

namespace Midend

open Lang

section Parted

variable {α : Type} (together : α → α → Bool)

/-- Neighbours in one part belong together. -/
theorem together_of_splitBy {items part : List α} (member : part ∈ items.splitBy together)
    {offset : Nat} {before item : α} (found : part[offset]? = some before)
    (behind : part[offset + 1]? = some item) : together before item = true := by
  obtain ⟨_, rfl⟩ := List.getElem?_eq_some_iff.1 found
  obtain ⟨inside, rfl⟩ := List.getElem?_eq_some_iff.1 behind
  exact List.isChain_iff_getElem.1 (List.isChain_of_mem_splitBy member) offset inside

/-- Neighbours in different parts do not belong together. -/
theorem not_together_of_splitBy {items first second : List α} {index : Nat}
    (found : (items.splitBy together)[index]? = some first)
    (behind : (items.splitBy together)[index + 1]? = some second) :
    ∃ before item, first[first.length - 1]? = some before ∧ second[0]? = some item ∧
      together before item = false := by
  obtain ⟨_, rfl⟩ := List.getElem?_eq_some_iff.1 found
  obtain ⟨inside, rfl⟩ := List.getElem?_eq_some_iff.1 behind
  obtain ⟨filled, filledToo, apart⟩ :=
    List.isChain_iff_getElem.1 (List.isChain_getLast_head_splitBy together items) index inside
  refine ⟨_, _, ?_, ?_, apart⟩
  · rw [← List.getLast?_eq_getElem?, List.getLast?_eq_some_getLast filled]
  · rw [← List.head?_eq_getElem?, List.head?_eq_some_head filledToo]

/-- A part starts at the first item and wherever an item does not belong together with the one in
front. -/
theorem exists_offsetOf_splitBy_iff (items : List α) (place : Nat) :
    (∃ index < (items.splitBy together).length,
        offsetOf id (items.splitBy together) index = place) ↔
      ∃ item, items[place]? = some item ∧
        (place = 0 ∨ ∃ before, 0 < place ∧ items[place - 1]? = some before ∧
          together before item = false) := by
  set parts := items.splitBy together with parts_def
  have whole : parts.flatMap id = items := by
    rw [List.flatMap_id, parts_def, List.flatten_splitBy]
  have filled {index : Nat} {part : List α} (stands : parts[index]? = some part) :
      0 < part.length :=
    List.length_pos_iff.2 (List.ne_nil_of_mem_splitBy (List.mem_of_getElem? stands))
  have found {index : Nat} {part : List α} (stands : parts[index]? = some part) (offset : Nat)
      (within : offset < part.length) :
      items[offsetOf id parts index + offset]? = part[offset]? := by
    rw [← whole]
    exact getElem?_flatMap_offsetOf id stands within
  constructor
  · rintro ⟨index, inside, rfl⟩
    have stands := List.getElem?_eq_getElem inside
    have first := found stands 0 (filled stands)
    cases index with
    | zero => exact ⟨_, first.trans (List.getElem?_eq_getElem (filled stands)), .inl rfl⟩
    | succ index =>
      have standsBefore : parts[index]? = some parts[index] := List.getElem?_eq_getElem (by omega)
      have more := filled standsBefore
      have follows := offsetOf_succ id standsBefore
      have last := found standsBefore (parts[index].length - 1) (by omega)
      obtain ⟨before, item, isLast, isFirst, apart⟩ :=
        not_together_of_splitBy together standsBefore stands
      rw [id] at follows
      refine ⟨item, first.trans isFirst, .inr ⟨before, by omega, ?_, apart⟩⟩
      rw [follows, Nat.add_sub_assoc more, last, isLast]
  · rintro ⟨item, stands, boundary⟩
    have inside : place < (parts.flatMap id).length := by
      rw [whole]
      exact (List.getElem?_eq_some_iff.1 stands).1
    obtain ⟨index, part, offset, foundPart, within, rfl⟩ := exists_offsetOf id parts inside
    refine ⟨index, (List.getElem?_eq_some_iff.1 foundPart).1, ?_⟩
    cases offset with
    | zero => rfl
    | succ offset =>
      obtain zero | ⟨before, -, standsBefore, apart⟩ := boundary
      · omega
      · have early : offset < part.length := Nat.lt_of_succ_lt within
        rw [Nat.add_succ_sub_one, found foundPart offset early] at standsBefore
        rw [found foundPart (offset + 1) within] at stands
        rw [together_of_splitBy together (List.mem_of_getElem? foundPart) standsBefore stands]
          at apart
        cases apart

end Parted

/-- An entry shares the block of the one in front when it is no label and that one no
terminator. -/
def sharesBlock (before entry : Entry) : Bool :=
  !(before.instr?.any Instruction.isTerminator) && entry.label?.isNone

/-- A block under construction: its entries share it, and no terminator closes it. -/
structure Block.Open (block : Block) : Prop where
  chain : block.code.IsChain fun before entry => sharesBlock before entry
  stays : ∀ instr ∈ block.instrs, instr.isTerminator = false

/-- A new block with an invented name is open. -/
theorem Block.open_invented (label : String) : (Block.invented label).Open :=
  ⟨.nil, nofun⟩

/-- A new block at a label is open. -/
theorem Block.open_atLabel (label : String) (pos : Option Position) :
    (Block.atLabel label pos).Open :=
  ⟨.singleton _, nofun⟩

/-- The last entry of an open block is no terminator. -/
theorem Block.Open.stays_last {block : Block} (isOpen : block.Open) {last : Entry}
    (isLast : last ∈ block.code.getLast?) : last.instr?.any Instruction.isTerminator = false := by
  cases last with
  | label => rfl
  | instr instr =>
    refine isOpen.stays instr ?_
    rw [← block.filterMap_code]
    exact List.mem_filterMap.2 ⟨_, List.mem_of_getLast? isLast, rfl⟩

/-- An instruction shares an open block with what the block has already. -/
theorem Block.Open.chain_push {block : Block} (isOpen : block.Open) (instr : Instruction) :
    (block.push instr).code.IsChain fun before entry => sharesBlock before entry := by
  rw [Block.code_push, List.isChain_append]
  refine ⟨isOpen.chain, .singleton _, fun last isLast entry isEntry => ?_⟩
  obtain rfl : .instr instr = entry := by simpa using isEntry
  simp [sharesBlock, isOpen.stays_last isLast, Entry.label?]

/-- A block whose entries share it is one part, unless it is void. -/
theorem Block.map_code_unlessVoid (block : Block)
    (chain : block.code.IsChain fun before entry => sharesBlock before entry) :
    block.unlessVoid.map Block.code = block.code.splitBy sharesBlock := by
  have whole := block.flatMap_code_unlessVoid
  unfold unlessVoid at whole ⊢
  split at whole
  next void => rw [if_pos void, ← whole, List.flatMap_nil, List.map_nil, List.splitBy_nil]
  next kept =>
    have filled : block.code ≠ [] := by
      intro empty
      rw [code, List.append_eq_nil_iff, List.map_eq_nil_iff] at empty
      simp_all [isEmpty]
    rw [if_neg kept, List.map_singleton, List.splitBy_of_isChain filled chain]

/-- The blocks built from an open block and the entries behind it are the parts of its code and
these entries. -/
theorem map_code_blocksFrom (name : String) (block : Block) (index : Nat) (entries : List Entry)
    (isOpen : block.Open) :
    (blocksFrom name block index entries).map Block.code =
      (block.code ++ entries).splitBy sharesBlock := by
  induction entries generalizing block index with
  | nil => rw [blocksFrom, List.append_nil, block.map_code_unlessVoid isOpen.chain]
  | cons entry entries ih =>
    cases entry with
    | label label pos =>
      have parted := ih (.atLabel label pos) (index + 1) (Block.open_atLabel label pos)
      have closed := (block.addSuccessors [label]).map_code_unlessVoid isOpen.chain
      rw [Block.code_atLabel, List.singleton_append] at parted
      rw [blocksFrom, List.map_append, parted, closed, Block.code_addSuccessors,
        List.splitBy_append_cons]
      exact fun last _ => Bool.and_false _
    | instr instr =>
      have pushed : block.code ++ .instr instr :: entries = (block.push instr).code ++ entries := by
        simp
      rw [blocksFrom, pushed]
      split
      next leaves =>
        have parted := ih (.invented (nameBehind name index)) (index + 1) (Block.open_invented _)
        have closed := ((block.addSuccessors instr.jumpTargets).push instr).map_code_unlessVoid
          (isOpen.chain_push instr)
        rw [Block.code_invented, List.nil_append] at parted
        rw [List.map_append, parted, closed, Block.code_push, Block.code_addSuccessors,
          ← Block.code_push, List.splitBy_append]
        intro last isLast entry _
        obtain rfl : .instr instr = last := by simpa using isLast
        simp [sharesBlock, Entry.instr?, leaves]
      next goesOn =>
        refine ih (block.push instr) (index + 1) ⟨isOpen.chain_push instr, ?_⟩
        intro other member
        rcases List.mem_append.1 member with old | new
        · exact isOpen.stays other old
        · rw [List.mem_singleton.1 new]
          simpa using goesOn

/-- The code of the blocks of a function is its body, parted wherever two neighbours do not share a
block. -/
theorem map_code_blocks (function : Function) :
    function.blocks.map Block.code = function.body.splitBy sharesBlock := by
  rw [Function.blocks, map_code_blocksFrom _ _ _ _ (Block.open_invented _), Block.code_invented,
    List.nil_append]

/-- A block begins at the first entry, at every label, and at every entry directly behind a
terminator. -/
def BeginsBlock (body : List Entry) (place : Nat) : Prop :=
  ∃ entry, body[place]? = some entry ∧
    (place = 0 ∨ (∃ name pos, entry = .label name pos) ∨
      ∃ instr, 0 < place ∧ body[place - 1]? = some (.instr instr) ∧ instr.isTerminator = true)

/-- Behind the first entry, a block begins where an entry does not share the block of the one in
front. -/
theorem beginsBlock_iff (body : List Entry) (place : Nat) :
    BeginsBlock body place ↔ ∃ entry, body[place]? = some entry ∧
      (place = 0 ∨ ∃ before, 0 < place ∧ body[place - 1]? = some before ∧
        sharesBlock before entry = false) := by
  refine exists_congr fun entry => and_congr_right fun found => ?_
  constructor
  · rintro (first | ⟨name, pos, rfl⟩ | ⟨instr, later, front, leaves⟩)
    · exact .inl first
    · by_cases first : place = 0
      · exact .inl first
      · have inside := (List.getElem?_eq_some_iff.1 found).1
        have front : body[place - 1]? = some body[place - 1] := List.getElem?_eq_getElem (by omega)
        exact .inr ⟨_, Nat.pos_of_ne_zero first, front, Bool.and_false _⟩
    · exact .inr ⟨_, later, front, by simp [sharesBlock, Entry.instr?, leaves]⟩
  · rintro (first | ⟨before, later, front, apart⟩)
    · exact .inl first
    · cases entry with
      | label name pos => exact .inr (.inl ⟨name, pos, rfl⟩)
      | instr =>
        cases before with
        | label => simp [sharesBlock, Entry.instr?, Entry.label?] at apart
        | instr instr =>
          exact .inr (.inr ⟨instr, later, front, by
            simpa [sharesBlock, Entry.instr?, Entry.label?] using apart⟩)

/-- Blocks start where a block begins, and nowhere else. -/
theorem exists_startOf_iff (function : Function) (place : Nat) :
    (∃ index < function.blocks.length, startOf function.blocks index = place) ↔
      BeginsBlock function.body place := by
  have starts (index : Nat) : startOf function.blocks index =
      offsetOf id (function.body.splitBy sharesBlock) index := by
    rw [← map_code_blocks, startOf, offsetOf, offsetOf, ← List.map_take, List.flatMap_id,
      List.flatMap_def]
  have count : function.blocks.length = (function.body.splitBy sharesBlock).length := by
    rw [← map_code_blocks, List.length_map]
  simp only [starts, count, exists_offsetOf_splitBy_iff, beginsBlock_iff]

/-- Splitting a function into blocks loses nothing, labels and their positions included. The blocks
are its entries from one place at which a block begins to the next, so that a terminator is always
the last instruction of its block. -/
theorem blocks_partition (function : Function) :
    function.withBlocks function.blocks = function ∧
      (∀ place, (∃ index < function.blocks.length, startOf function.blocks index = place) ↔
        BeginsBlock function.body place) ∧
      (∀ block ∈ function.blocks, block.code ≠ []) ∧
      ∀ block ∈ function.blocks, ∀ instr ∈ block.instrs.dropLast, instr.isTerminator = false := by
  have chained : Chained function.blocks :=
    chained_blocksFrom _ _ _ _ (by simp [Block.invented]) rfl
  refine ⟨?_, exists_startOf_iff function, fun block member => ?_, fun block member => ?_⟩
  · rw [Function.withBlocks, flatMap_code_blocks]
  · have part := List.mem_map_of_mem (f := Block.code) member
    rw [map_code_blocks] at part
    exact List.ne_nil_of_mem_splitBy part
  · obtain ⟨index, found⟩ := List.getElem?_of_mem member
    exact (chained.endsBefore index block found).straight

example : (List.range loopToStart.blocks.length).map (startOf loopToStart.blocks) =
    [0, 1, 4, 5, 7] := by
  decide +kernel

end Midend
