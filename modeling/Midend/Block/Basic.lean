import Midend.Lang.Function

/-!
# Basic blocks

A block is a run of instructions that control enters at the top and leaves at the bottom, with the
names of the blocks that control may enter next. A block that does not begin at a label of the
program has an invented name, which is not written back into the code.
-/

namespace Midend

open Lang

/-- `BasicBlock` — a basic block. -/
structure Block where
  label : String
  instrs : List Instruction := []
  /-- The names of the blocks that may follow. -/
  next : List String := []
  /-- Remarks of analyses. -/
  notes : List String := []
  /-- Whether the name is invented. -/
  synthetic : Bool := false
  /-- The position of the label in the source. -/
  labelPos : Option Position := none
deriving DecidableEq, Repr

namespace Block

/-- `BasicBlock::synthetic` — an empty block with an invented name. -/
def invented (label : String) : Block :=
  { label, synthetic := true }

/-- `BasicBlock::from_label` — an empty block that begins at a label. -/
def atLabel (label : String) (pos : Option Position) : Block :=
  { label, labelPos := pos }

/-- `BasicBlock::with_instrs` — the block with other instructions; remarks about the old ones are
dropped. -/
def replaceInstrs (block : Block) (instrs : List Instruction) : Block :=
  { block with instrs, notes := [] }

/-- `BasicBlock::push_instr` — the block with an instruction at its end. -/
def push (block : Block) (instr : Instruction) : Block :=
  { block with instrs := block.instrs ++ [instr] }

/-- `BasicBlock::add_next` — the block with further successors. -/
def addSuccessors (block : Block) (labels : List String) : Block :=
  { block with next := block.next ++ labels }

/-- `BasicBlock::add_note` — the block with a further remark. -/
def annotate (block : Block) (note : String) : Block :=
  { block with notes := block.notes ++ [note] }

/-- `BasicBlock::is_empty` — whether the block has no instructions. -/
def isEmpty (block : Block) : Bool :=
  block.instrs.isEmpty

/-- `BasicBlock::to_code` — the entries that a block stands for: its label, unless it is invented,
and its instructions. -/
def code (block : Block) : List Entry :=
  (if block.synthetic then [] else [.label block.label block.labelPos])
    ++ block.instrs.map .instr

end Block

/-- `blocks_to_function` — the function with the code of the given blocks for its body. -/
def Lang.Function.withBlocks (function : Function) (blocks : List Block) : Function :=
  { function with body := blocks.flatMap Block.code }

end Midend
