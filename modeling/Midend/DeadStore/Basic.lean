import Midend.Dataflow.Facts
import Midend.Graph.ControlFlow
import Std.Data.TreeMap

/-!
# Dead stores

A store is dead when no path from it leads to an instruction that reads the variable before another
store to it. Such a store can be left out, unless the instruction does more than store.

To find the dead stores, a walk through the blocks takes along the stores that are current, and
notes those that it finds read. It enters a block again only with a store that has not come there
before. Stores in blocks that it never enters are not looked at.
-/

namespace Midend

open Lang

/-- An instruction that writes a variable. -/
structure Store where
  name : String
  /-- The number of the block that the instruction stands in. -/
  block : Nat
  /-- The index of the instruction in its block. -/
  offset : Nat
deriving DecidableEq, Repr

/-- Where the instruction stands. -/
def Store.place (store : Store) : Nat × Nat :=
  (store.block, store.offset)

/-- The instruction. -/
def Store.instr? (blocks : List Block) (store : Store) : Option Instruction :=
  (blocks[store.block]?).bind fun block => block.instrs[store.offset]?

/-- The stores of a numbered block. -/
def storesIn (index : Nat) (block : Block) : List Store :=
  block.instrs.zipIdx.filterMap fun (instr, offset) => instr.dest?.map (⟨·, index, offset⟩)

/-- The stores of blocks, in order. -/
def storesOf (blocks : List Block) : List Store :=
  blocks.zipIdx.flatMap fun (block, index) => storesIn index block

/-- The stores that are current behind an instruction, given those current in front of it. A store
takes the place of the others to its variable. -/
def currentBehind (index offset : Nat) (instr : Instruction) (current : List Store) : List Store :=
  match instr.dest? with
  | none => current
  | some name => current.filter (·.name != name) ++ [⟨name, index, offset⟩]

/-- The current stores that an instruction reads from. -/
def storesRead (instr : Instruction) (current : List Store) : List Store :=
  current.filter fun store => instr.args.contains store.name

/-- Goes past the instructions of a block from an offset on: the stores current behind them, and all
that were read. An instruction reads before it writes. -/
def goPast (index : Nat) : (offset : Nat) → List Instruction → (current read : List Store) →
    List Store × List Store
  | _, [], current, read => (current, read)
  | offset, instr :: instrs, current, read =>
    goPast index (offset + 1) instrs (currentBehind index offset instr current)
      (Facts.addAll read (storesRead instr current))

/-- A walk under way. -/
structure Walk where
  /-- The blocks to enter next, with stores that are current there. -/
  pending : List (Nat × List Store) := [(0, [])]
  /-- The stores that came to each block entered so far. -/
  entered : Std.TreeMap Nat (List Store) := ∅
  /-- The stores read so far. -/
  read : List Store := []

namespace Walk

/-- `merge_definitions` — whether a block has been entered with all of the given stores. -/
def knows (walk : Walk) (index : Nat) (current : List Store) : Bool :=
  (walk.entered[index]?).any fun known => current.all (Facts.has known)

/-- A turn of the loop of `dead_stores` — goes through a block, with the stores that came to it
before and now, and puts its successors in front of what is pending. -/
def enter (blocks : List Block) (successors : List (List Nat)) (walk : Walk) (index : Nat)
    (current : List Store) : Walk :=
  let known := Facts.union ((walk.entered[index]?).getD []) current
  let instrs := ((blocks[index]?).map Block.instrs).getD []
  let (leaving, read) := goPast index 0 instrs known walk.read
  { pending := ((successors[index]?).getD []).map (·, leaving) ++ walk.pending
    entered := walk.entered.insert index known
    read }

/-- The loop of `dead_stores` — takes up what is pending, at most the given number of times. -/
def run (blocks : List Block) (successors : List (List Nat)) : (allowed : Nat) → Walk → Walk
  | 0, walk => walk
  | allowed + 1, walk =>
    match walk.pending with
    | [] => walk
    | (index, current) :: pending =>
      let walk := { walk with pending }
      if walk.knows index current then run blocks successors allowed walk
      else run blocks successors allowed (walk.enter blocks successors index current)

/-- How often a walk takes something up at most: once for the first block, and for each edge once
more than there are stores. -/
def limit (blocks : List Block) (successors : List (List Nat)) : Nat :=
  1 + successors.flatten.length * ((storesOf blocks).length + 1)

/-- The whole walk from the first block. -/
def through (blocks : List Block) (successors : List (List Nat)) : Walk :=
  run blocks successors (limit blocks successors) {}

/-- Whether a store was met and never read, by an instruction that does no more than store. -/
def leavesDead (blocks : List Block) (walk : Walk) (store : Store) : Bool :=
  walk.entered.contains store.block && !Facts.has walk.read store
    && !(store.instr? blocks).any Instruction.hasSideEffects

end Walk

/-- `dead_stores` — the dead stores of the blocks that control reaches from the first one, as pairs
of a block and an index in it, in order. -/
def deadStores (blocks : List Block) : Except Fault (List (Nat × Nat)) := do
  let successors ← successorTable blocks
  let walk := Walk.through blocks successors
  return ((storesOf blocks).filter (walk.leavesDead blocks)).map Store.place

/-- `remove_dead` — the blocks without some of their instructions. -/
def removeStores (blocks : List Block) (stores : List (Nat × Nat)) : List Block :=
  blocks.zipIdx.map fun (block, index) =>
    let kept := block.instrs.zipIdx.filter fun (_, instr) => !stores.contains (index, instr)
    block.replaceInstrs (kept.map Prod.fst)

end Midend
