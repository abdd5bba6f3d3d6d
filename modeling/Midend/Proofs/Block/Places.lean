import Midend.Graph.ControlFlow
import Midend.Proofs.Block.Layout
import Midend.Proofs.Traversal

/-!
# Places in blocks

The entries of a body and its instructions are counted through the blocks. A place of the body is an
offset in the code of a block, and the labels that jumps name are found at the starts of the blocks
that they are resolved to.
-/

namespace Midend

open Lang Execution

section Offsets

variable {α β : Type} (parts : α → List β)

/-- The number of parts of the items in front of one. -/
def offsetOf (items : List α) (index : Nat) : Nat :=
  ((items.take index).flatMap parts).length

/-- In front of the first item stands nothing. -/
@[simp] theorem offsetOf_zero (items : List α) : offsetOf parts items 0 = 0 :=
  rfl

/-- In front of a later item stand the parts of the first one. -/
theorem offsetOf_cons_succ (first : α) (others : List α) (index : Nat) :
    offsetOf parts (first :: others) (index + 1) =
      (parts first).length + offsetOf parts others index := by
  simp [offsetOf]

/-- Behind an item stand its own parts too. -/
theorem offsetOf_succ {items : List α} {index : Nat} {item : α}
    (found : items[index]? = some item) :
    offsetOf parts items (index + 1) = offsetOf parts items index + (parts item).length := by
  rw [offsetOf, offsetOf, List.take_add_one, found]
  simp

/-- Behind the last item stand all parts. -/
theorem offsetOf_of_length_le {items : List α} {index : Nat} (beyond : items.length ≤ index) :
    offsetOf parts items index = (items.flatMap parts).length := by
  rw [offsetOf, List.take_of_length_le beyond]

/-- The parts in front of an item are among those in front of later ones. -/
theorem offsetOf_mono (items : List α) {first second : Nat} (ordered : first ≤ second) :
    offsetOf parts items first ≤ offsetOf parts items second := by
  have split : items.take second = items.take first ++ (items.take second).drop first := by
    have parted := (List.take_append_drop first (items.take second)).symm
    rwa [List.take_take, Nat.min_eq_left ordered] at parted
  rw [offsetOf, offsetOf, split, List.flatMap_append, List.length_append]
  omega

/-- No more parts stand in front of an item than there are. -/
theorem offsetOf_le (items : List α) (index : Nat) :
    offsetOf parts items index ≤ (items.flatMap parts).length := by
  rw [← offsetOf_of_length_le parts (Nat.le_max_left items.length index)]
  exact offsetOf_mono parts items (Nat.le_max_right items.length index)

/-- All parts are those of the items in front of one, its own, and those of the items behind it. -/
theorem flatMap_split {items : List α} {index : Nat} {item : α}
    (found : items[index]? = some item) :
    items.flatMap parts =
      (items.take index).flatMap parts ++
        (parts item ++ (items.drop (index + 1)).flatMap parts) := by
  obtain ⟨within, rfl⟩ := List.getElem?_eq_some_iff.1 found
  rw [← List.flatMap_cons, ← List.flatMap_append, List.getElem_cons_drop, List.take_append_drop]

/-- The parts of an item are found behind those of the items in front of it. -/
theorem getElem?_flatMap_offsetOf {items : List α} {index : Nat} {item : α}
    (found : items[index]? = some item) {offset : Nat} (inside : offset < (parts item).length) :
    (items.flatMap parts)[offsetOf parts items index + offset]? = (parts item)[offset]? := by
  rw [flatMap_split parts found, offsetOf, List.getElem?_append_right (Nat.le_add_right _ _),
    Nat.add_sub_cancel_left, List.getElem?_append_left inside]

/-- The parts in front of an item, as a list. -/
theorem take_flatMap_offsetOf (items : List α) (index : Nat) :
    (items.flatMap parts).take (offsetOf parts items index) =
      (items.take index).flatMap parts := by
  have split : items.flatMap parts =
      (items.take index).flatMap parts ++ (items.drop index).flatMap parts := by
    rw [← List.flatMap_append, List.take_append_drop]
  rw [split, offsetOf, List.take_left]

/-- Every part belongs to an item. -/
theorem exists_offsetOf (items : List α) {place : Nat}
    (inside : place < (items.flatMap parts).length) :
    ∃ (index : Nat) (item : α) (offset : Nat), items[index]? = some item ∧
      offset < (parts item).length ∧ place = offsetOf parts items index + offset := by
  induction items generalizing place with
  | nil => simp at inside
  | cons first others ih =>
    by_cases early : place < (parts first).length
    · exact ⟨0, first, place, rfl, early, by simp [offsetOf]⟩
    · have later : place - (parts first).length < (others.flatMap parts).length := by
        rw [List.flatMap_cons, List.length_append] at inside
        omega
      obtain ⟨index, item, offset, found, within, same⟩ := ih later
      refine ⟨index + 1, item, offset, by simpa using found, within, ?_⟩
      have shifted := offsetOf_cons_succ parts first others index
      omega

end Offsets

/-- The place at which the code of a block starts. -/
def startOf (blocks : List Block) (index : Nat) : Nat :=
  offsetOf Block.code blocks index

/-- The number of the first instruction of a block. -/
def baseOf (blocks : List Block) (index : Nat) : Nat :=
  offsetOf Block.instrs blocks index

/-- The number of instructions in front of a place. -/
def numberAt (body : List Entry) (place : Nat) : Nat :=
  ((body.take place).filterMap Entry.instr?).length

/-- The number of entries in front of the instructions of a block. -/
def Block.width (block : Block) : Nat :=
  if block.synthetic then 0 else 1

/-- A list of instructions has no other entries. -/
theorem filterMap_map_instr (instrs : List Instruction) :
    (instrs.map Entry.instr).filterMap Entry.instr? = instrs := by
  rw [List.filterMap_map]
  exact List.filterMap_some

/-- The code of a block has its instructions for instructions. -/
@[simp] theorem Block.filterMap_code (block : Block) :
    block.code.filterMap Entry.instr? = block.instrs := by
  rw [code, List.filterMap_append, filterMap_map_instr]
  split <;> rfl

/-- The blocks of a body have its instructions. -/
theorem filterMap_flatMap_code (blocks : List Block) :
    (blocks.flatMap Block.code).filterMap Entry.instr? = blocks.flatMap Block.instrs := by
  rw [List.filterMap_flatMap]
  simp

/-- The code of a block is its label, if it is not invented, and its instructions. -/
theorem Block.length_code (block : Block) :
    block.code.length = block.width + block.instrs.length := by
  unfold code width
  split <;> simp [Nat.add_comm]

/-- The instructions stand behind the label. -/
theorem Block.getElem?_code_width (block : Block) (index : Nat) :
    block.code[block.width + index]? = block.instrs[index]?.map Entry.instr := by
  unfold code width
  split
  · simp
  · simp [Nat.add_comm 1 index]

/-- An instruction in the code of a block is one of its instructions. -/
theorem Block.getElem?_code_eq_instr (block : Block) {offset : Nat} {instr : Instruction}
    (found : block.code[offset]? = some (.instr instr)) :
    ∃ index, offset = block.width + index ∧ block.instrs[index]? = some instr := by
  by_cases behind : block.width ≤ offset
  · refine ⟨offset - block.width, by omega, ?_⟩
    have shifted := block.getElem?_code_width (offset - block.width)
    rw [Nat.add_sub_cancel' behind, found] at shifted
    cases within : block.instrs[offset - block.width]? with
    | none => simp [within] at shifted
    | some other =>
      rw [within] at shifted
      simpa using shifted.symm
  · unfold width at behind
    unfold code at found
    split at behind
    · omega
    next real =>
      obtain rfl : offset = 0 := by omega
      simp [real] at found

/-- A label in the code of a block is the block's own, at its start. -/
theorem Block.getElem?_code_eq_label (block : Block) (offset : Nat) (label : String) :
    (block.code[offset]?.any (Entry.declares label) = true) ↔
      offset = 0 ∧ block.synthetic = false ∧ block.label = label := by
  by_cases real : block.synthetic = true
  · simp only [code, real, if_true, List.nil_append, List.getElem?_map]
    cases block.instrs[offset]? <;> simp [Entry.declares]
  · cases offset with
    | zero => simp [code, real, Entry.declares]
    | succ offset =>
      simp only [code, real, Bool.false_eq_true, if_false, List.cons_append, List.nil_append,
        List.getElem?_cons_succ, List.getElem?_map]
      cases block.instrs[offset]? <;> simp [Entry.declares]

/-- A label is declared where the blocks that begin at it start. -/
theorem mem_declarations_flatMap_iff (blocks : List Block) (label : String) (place : Nat) :
    place ∈ declarations label (blocks.flatMap Block.code) ↔
      ∃ (target : Nat) (other : Block), blocks[target]? = some other ∧ other.synthetic = false ∧
        other.label = label ∧ place = startOf blocks target := by
  rw [mem_declarations]
  constructor
  · intro declared
    have inside : place < (blocks.flatMap Block.code).length := by
      by_contra beyond
      rw [List.getElem?_eq_none (by omega)] at declared
      simp at declared
    obtain ⟨target, other, offset, found, early, rfl⟩ := exists_offsetOf _ blocks inside
    rw [getElem?_flatMap_offsetOf _ found early, Block.getElem?_code_eq_label] at declared
    obtain ⟨rfl, visible, same⟩ := declared
    exact ⟨target, other, found, visible, same, rfl⟩
  · rintro ⟨target, other, found, visible, same, rfl⟩
    have filled : 0 < other.code.length := by
      rw [Block.length_code, Block.width, visible, if_neg Bool.false_ne_true]
      omega
    rw [← Nat.add_zero (startOf blocks target), startOf, getElem?_flatMap_offsetOf _ found filled,
      Block.getElem?_code_eq_label]
    exact ⟨rfl, visible, same⟩

/-- In front of a block stand the instructions of the blocks in front of it. -/
theorem numberAt_startOf (blocks : List Block) (index : Nat) :
    numberAt (blocks.flatMap Block.code) (startOf blocks index) = baseOf blocks index := by
  rw [numberAt, startOf, take_flatMap_offsetOf, List.filterMap_flatMap]
  simp [baseOf, offsetOf]

/-- An instruction of a block stands in the body behind the start and the label of the block. -/
theorem getElem?_flatMap_code {blocks : List Block} {index : Nat} {block : Block}
    (found : blocks[index]? = some block) {offset : Nat} (inside : offset < block.instrs.length) :
    (blocks.flatMap Block.code)[startOf blocks index + (block.width + offset)]? =
      block.instrs[offset]?.map Entry.instr := by
  rw [startOf, getElem?_flatMap_offsetOf Block.code found (by rw [Block.length_code]; omega),
    Block.getElem?_code_width]

/-- The first entries of a block are its label and its first instructions. -/
theorem Block.filterMap_take_code (block : Block) (offset : Nat) :
    (block.code.take (block.width + offset)).filterMap Entry.instr? = block.instrs.take offset := by
  unfold code width
  split
  · rw [List.nil_append, Nat.zero_add, ← List.map_take, filterMap_map_instr]
  · rw [Nat.add_comm, List.singleton_append, List.take_succ_cons, List.filterMap_cons_none rfl,
      ← List.map_take, filterMap_map_instr]

/-- In front of an instruction of a block stand those of the blocks in front and those in front of
it in its block. -/
theorem numberAt_instr {blocks : List Block} {index : Nat} {block : Block}
    (found : blocks[index]? = some block) {offset : Nat} (inside : offset ≤ block.instrs.length) :
    numberAt (blocks.flatMap Block.code) (startOf blocks index + (block.width + offset)) =
      baseOf blocks index + offset := by
  have early : block.width + offset ≤ block.code.length := by
    rw [Block.length_code]
    omega
  have front : (blocks.flatMap Block.code).take (startOf blocks index + (block.width + offset)) =
      (blocks.take index).flatMap Block.code ++ block.code.take (block.width + offset) := by
    rw [flatMap_split Block.code found, startOf, offsetOf, List.take_length_add_append,
      List.take_append_of_le_length early]
  rw [numberAt, front, List.filterMap_append, filterMap_flatMap_code, Block.filterMap_take_code,
    List.length_append, List.length_take, Nat.min_eq_left inside, baseOf, offsetOf]

/-- An entry adds itself to the instructions counted behind it, unless it is a label. -/
theorem numberAt_succ (body : List Entry) (place : Nat) :
    numberAt body (place + 1) =
      numberAt body place + ((body[place]?.bind Entry.instr?).toList).length := by
  rw [numberAt, numberAt, List.take_add_one, List.filterMap_append, List.length_append]
  cases body[place]? with
  | none => rfl
  | some entry => cases entry <;> rfl

/-- No more instructions stand in front of a place than there are. -/
theorem numberAt_le (body : List Entry) (place : Nat) :
    numberAt body place ≤ (body.filterMap Entry.instr?).length := by
  have split : body.filterMap Entry.instr? =
      (body.take place).filterMap Entry.instr? ++ (body.drop place).filterMap Entry.instr? := by
    rw [← List.filterMap_append, List.take_append_drop]
  rw [numberAt, split, List.length_append]
  omega

/-- In front of an instruction stand fewer instructions than there are. -/
theorem numberAt_lt {body : List Entry} {place : Nat} {instr : Instruction}
    (found : body[place]? = some (.instr instr)) :
    numberAt body place < (body.filterMap Entry.instr?).length := by
  have behind := numberAt_succ body place
  have bound := numberAt_le body (place + 1)
  rw [found] at behind
  simp only [Option.bind_some, Entry.instr?, Option.toList_some, List.length_singleton] at behind
  omega

end Midend
