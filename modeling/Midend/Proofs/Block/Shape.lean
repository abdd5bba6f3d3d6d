import Midend.Proofs.Block.Places
import Mathlib.Data.List.Forall2

/-!
# The shape of blocks

How a body is split into blocks depends on its labels and on where its instructions send control.
When the instructions of blocks are replaced by others that send control to the same places, the
result is the blocks of its own code.
-/

namespace Midend

open Lang

/-- Instructions that send control to the same places. -/
structure Lang.Instruction.SameControl (before after : Instruction) : Prop where
  isTerminator_eq : after.isTerminator = before.isTerminator
  jumpTargets_eq : after.jumpTargets = before.jumpTargets

/-- Entries that are one label or send control to the same places. -/
inductive Lang.Entry.SameControl : Entry → Entry → Prop
  | label (name : String) (pos : Option Position) :
    SameControl (.label name pos) (.label name pos)
  | instr {before after : Instruction} (same : before.SameControl after) :
    SameControl (.instr before) (.instr after)

/-- Blocks that differ in their instructions only, which send control to the same places. -/
structure Block.SameShape (before after : Block) : Prop where
  eq_with : after = { before with instrs := after.instrs }
  instrs : List.Forall₂ Instruction.SameControl before.instrs after.instrs

namespace Block.SameShape

variable {before after : Block}

/-- A block has its own shape. -/
theorem refl (block : Block) : block.SameShape block :=
  ⟨rfl, List.forall₂_same.2 fun _ _ => ⟨rfl, rfl⟩⟩

/-- Blocks of one shape are void together. -/
theorem unlessVoid (same : before.SameShape after) :
    List.Forall₂ SameShape before.unlessVoid after.unlessVoid := by
  have synthetic : after.synthetic = before.synthetic := by rw [same.eq_with]
  have empty : after.isEmpty = before.isEmpty := by
    rw [isEmpty, isEmpty, Bool.eq_iff_iff, List.isEmpty_iff_length_eq_zero,
      List.isEmpty_iff_length_eq_zero, same.instrs.length_eq]
  rw [Block.unlessVoid, Block.unlessVoid, synthetic, empty]
  split
  · exact .nil
  · exact .cons same .nil

/-- Instructions that send control to the same places can be added. -/
theorem push (same : before.SameShape after) {first second : Instruction}
    (control : first.SameControl second) : (before.push first).SameShape (after.push second) := by
  refine ⟨?_, List.rel_append same.instrs (.cons control .nil)⟩
  rw [Block.push, Block.push, same.eq_with]

/-- The same successors can be added. -/
theorem addSuccessors (same : before.SameShape after) (labels : List String) :
    (before.addSuccessors labels).SameShape (after.addSuccessors labels) := by
  refine ⟨?_, same.instrs⟩
  rw [Block.addSuccessors, Block.addSuccessors, same.eq_with]

/-- The code of blocks of one shape has the same labels and sends control to the same places. -/
theorem code (same : before.SameShape after) :
    List.Forall₂ Entry.SameControl before.code after.code := by
  have instrs : List.Forall₂ Entry.SameControl (before.instrs.map Entry.instr)
      (after.instrs.map Entry.instr) := by
    rw [List.forall₂_map_left_iff, List.forall₂_map_right_iff]
    exact same.instrs.imp fun _ _ control => .instr control
  rw [Block.code, Block.code, same.eq_with]
  refine List.rel_append ?_ instrs
  dsimp only
  split
  · exact .nil
  · exact .cons (.label _ _) .nil

/-- A block of a given shape is determined by its code. -/
theorem eq_of_code {other : Block} (same : before.SameShape after)
    (sameToo : before.SameShape other) (code : after.code = other.code) : after = other := by
  have instrs : after.instrs = other.instrs := by
    rw [← after.filterMap_code, code, other.filterMap_code]
  rw [same.eq_with, sameToo.eq_with, instrs]

end Block.SameShape

/-- Entries that send control to the same places are split in the same way. -/
theorem sameShape_blocksFrom (name : String) {entries others : List Entry}
    (alike : List.Forall₂ Entry.SameControl entries others) {block other : Block}
    (same : block.SameShape other) (index : Nat) :
    List.Forall₂ Block.SameShape (blocksFrom name block index entries)
      (blocksFrom name other index others) := by
  induction alike generalizing block other index with
  | nil => exact same.unlessVoid
  | @cons entry _ entries _ first _ ih =>
    cases first with
    | label label pos =>
      exact List.rel_append (same.addSuccessors [label]).unlessVoid (ih (.refl _) (index + 1))
    | @instr instr simplified control =>
      rw [blocksFrom, blocksFrom, control.isTerminator_eq, control.jumpTargets_eq]
      split
      · exact List.rel_append ((same.addSuccessors _).push control).unlessVoid
          (ih (.refl _) (index + 1))
      · exact ih (same.push control) (index + 1)

/-- Blocks of given shapes are determined by their code. -/
theorem eq_of_sameShape {origins blocks others : List Block}
    (alike : List.Forall₂ Block.SameShape origins blocks)
    (alikeToo : List.Forall₂ Block.SameShape origins others)
    (code : blocks.flatMap Block.code = others.flatMap Block.code) : blocks = others := by
  induction alike generalizing others with
  | nil =>
    cases alikeToo
    rfl
  | cons first _ ih =>
    cases alikeToo with
    | cons firstToo along =>
      have length := first.code.length_eq.symm.trans firstToo.code.length_eq
      obtain ⟨here, behind⟩ := List.append_inj code length
      rw [first.eq_of_code firstToo here, ih along behind]

/-- When the blocks of a function are replaced by blocks of the same shape, these are the blocks of
the new function. -/
theorem Lang.Function.blocks_withBlocks {function : Function} {blocks : List Block}
    (alike : List.Forall₂ Block.SameShape function.blocks blocks) :
    (function.withBlocks blocks).blocks = blocks := by
  have bodies : List.Forall₂ Entry.SameControl function.body (blocks.flatMap Block.code) := by
    rw [← flatMap_code_blocks function]
    exact List.rel_flatMap alike fun _ _ same => same.code
  have rebuilt : List.Forall₂ Block.SameShape function.blocks
      (function.withBlocks blocks).blocks :=
    sameShape_blocksFrom function.name bodies (.refl _) 0
  exact eq_of_sameShape rebuilt alike (flatMap_code_blocks _)

end Midend
