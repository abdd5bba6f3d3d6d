import Midend.Block.Build

/-!
# The code of blocks

Splitting a body into blocks loses nothing: the code of the blocks, one after the other, is the body
again.
-/

namespace Midend

open Lang

/-- A block that is left out has no code. -/
theorem Block.flatMap_code_unlessVoid (block : Block) :
    block.unlessVoid.flatMap Block.code = block.code := by
  unfold unlessVoid
  split
  next void =>
    rw [Bool.and_eq_true, isEmpty, List.isEmpty_iff] at void
    simp [code, void.1, void.2]
  next => simp

/-- Further successors do not change the code of a block. -/
@[simp] theorem Block.code_addSuccessors (block : Block) (labels : List String) :
    (block.addSuccessors labels).code = block.code :=
  rfl

/-- An instruction at the end of a block is an entry at the end of its code. -/
@[simp] theorem Block.code_push (block : Block) (instr : Instruction) :
    (block.push instr).code = block.code ++ [.instr instr] := by
  rw [code, code, push, List.map_append, ← List.append_assoc]
  rfl

/-- An empty block at a label is that label. -/
@[simp] theorem Block.code_atLabel (label : String) (pos : Option Position) :
    (Block.atLabel label pos).code = [.label label pos] :=
  rfl

/-- An empty block with an invented name has no code. -/
@[simp] theorem Block.code_invented (label : String) : (Block.invented label).code = [] :=
  rfl

/-- The blocks built from an open block and the entries behind it have the code of the open block
and then those entries. -/
theorem flatMap_code_blocksFrom (name : String) (block : Block) (index : Nat)
    (entries : List Entry) :
    (blocksFrom name block index entries).flatMap Block.code = block.code ++ entries := by
  induction entries generalizing block index with
  | nil => rw [blocksFrom, Block.flatMap_code_unlessVoid, List.append_nil]
  | cons entry entries ih =>
    cases entry with
    | label label pos =>
      rw [blocksFrom, List.flatMap_append, Block.flatMap_code_unlessVoid, ih]
      simp
    | instr instr =>
      rw [blocksFrom]
      split
      · rw [List.flatMap_append, Block.flatMap_code_unlessVoid, ih]
        simp
      · rw [ih]
        simp

/-- The code of the blocks of a function is its body. -/
theorem flatMap_code_blocks (function : Function) :
    function.blocks.flatMap Block.code = function.body := by
  rw [Function.blocks, flatMap_code_blocksFrom, Block.code_invented, List.nil_append]

end Midend
