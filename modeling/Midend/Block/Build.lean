import Midend.Block.Basic
import Std.Data.TreeMap

/-!
# Splitting functions into blocks

A block starts at the first entry, at every label, and behind every terminator. Falling into a label
is an edge like a jump. Blocks that would have neither a label nor an instruction are left out;
empty blocks with a label stay, so that jumps to them still find them.
-/

namespace Midend

open Lang

/-- `BlockBuilder::insert_block` — the block, unless it is an invented one without instructions. -/
def Block.unlessVoid (block : Block) : List Block :=
  if block.isEmpty && block.synthetic then [] else [block]

/-- The name of the block that follows the terminator at an index: the row behind it, counting
entries from one. -/
def nameBehind (function : String) (index : Nat) : String :=
  function ++ ".l" ++ toString (index + 2)

/-- `BlockBuilder::build` — the blocks of the entries from an index on, of which the open block is
the first. -/
def blocksFrom (function : String) : (open? : Block) → (index : Nat) → List Entry → List Block
  | block, _, [] => block.unlessVoid
  | block, index, .label name pos :: entries =>
    (block.addSuccessors [name]).unlessVoid
      ++ blocksFrom function (.atLabel name pos) (index + 1) entries
  | block, index, .instr instr :: entries =>
    if instr.isTerminator then
      ((block.addSuccessors instr.jumpTargets).push instr).unlessVoid
        ++ blocksFrom function (.invented (nameBehind function index)) (index + 1) entries
    else blocksFrom function (block.push instr) (index + 1) entries

/-- `build_blocks` — the blocks of a function, in the order of its body. -/
def Lang.Function.blocks (function : Function) : List Block :=
  blocksFrom function.name (.invented (function.name ++ ".start")) 0 function.body

/-- `FuncBlockMapping` — blocks of several functions, by the names of the functions. -/
abbrev BlocksByName := Std.TreeMap String (List Block)

/-- `group_basic_blocks` — the blocks of every function; of functions with one name the last
counts. -/
def Lang.Program.blocksByName (program : Program) : BlocksByName :=
  program.functions.foldl (fun byName function => byName.insert function.name function.blocks) ∅

end Midend
