import Midend.Block.Basic
import Midend.Fault
import Midend.Graph.Basic
import Midend.Graph.Search

/-!
# Control flow graphs

Blocks name their successors; here the names are resolved. The block graph has a node for each
block. The instruction graph has a node for each instruction and contracts empty blocks: an edge
that would enter one goes on to the first instructions that control can reach from it.
-/

namespace Midend

open Lang

/-- The number of the last block of a given name. -/
def blockNamed? (label : String) : List Block → Option Nat
  | [] => none
  | block :: blocks =>
    match blockNamed? label blocks with
    | some index => some (index + 1)
    | none => if block.label = label then some 0 else none

/-- `resolve_successors` — the numbers of the blocks that may follow each block. The first name that
no block has is a fault. -/
def successorTable (blocks : List Block) : Except Fault (List (List Nat)) :=
  blocks.mapM fun block => block.next.mapM fun label =>
    match blockNamed? label blocks with
    | some index => .ok index
    | none => .error (.unresolvedLabel block.label label)

/-- The edges from each place to its successors, in order. -/
def edgesOf (successors : List (List Nat)) : List (Nat × Nat) :=
  successors.zipIdx.flatMap fun (targets, source) => targets.map fun target => (source, target)

/-- `blocks_to_block_graph` — the graph of blocks; the first block is the root. -/
def blockGraph (blocks : List Block) : Except Fault (Graph Block) := do
  let successors ← successorTable blocks
  let root := if blocks.isEmpty then none else some 0
  return .ofLists (blocks.map fun block => (block.label, block)) (edgesOf successors) root

/-- `InstrNode` — an instruction in the block that it stands in. -/
structure Site where
  instr : Instruction
  /-- The number of the block. -/
  block : Nat
deriving DecidableEq, Repr

/-- The first and the last node of the instructions of a block. -/
structure Span where
  first : Nat
  last : Nat
deriving DecidableEq, Repr

/-- The spans of blocks whose instructions are numbered from `start` on; an empty block has none. -/
def spansFrom (start : Nat) : List Block → List (Option Span)
  | [] => []
  | block :: blocks =>
    let stop := start + block.instrs.length
    (if block.isEmpty then none else some ⟨start, stop - 1⟩) :: spansFrom stop blocks

/-- The spans of blocks whose instructions are numbered from zero on. -/
def spans (blocks : List Block) : List (Option Span) :=
  spansFrom 0 blocks

/-- `chain_block` — the edges between the instructions of one block. -/
def Span.chain (span : Span) : List (Nat × Nat) :=
  (List.range' span.first (span.last - span.first)).map fun node => (node, node + 1)

/-- `entry_nodes` — the first instructions that control reaches when it enters a block, seen through
empty blocks. -/
def firstNodes (spans : List (Option Span)) (successors : List (List Nat)) (block : Nat) :
    List Nat :=
  let span? (place : Nat) : Option Span := (spans[place]?).join
  (reachedThrough (fun place => (span? place).isNone) successors [block]).filterMap fun place =>
    (span? place).map Span.first

/-- The edges from the last instruction of each block to the instructions control enters next. -/
def crossEdges (spans : List (Option Span)) (successors : List (List Nat)) : List (Nat × Nat) :=
  (spans.zip successors).flatMap fun (span, targets) =>
    match span with
    | none => []
    | some span =>
      targets.flatMap fun target =>
        (firstNodes spans successors target).map fun entry => (span.last, entry)

/-- `blocks_to_instr_graph` — the graph of instructions, numbered in the order of the blocks. The
root is the instruction that control meets first; blocks without instructions have none. -/
def instrGraph (blocks : List Block) : Except Fault (Graph Site) := do
  let successors ← successorTable blocks
  let spans := spans blocks
  let nodes := blocks.zipIdx.flatMap fun (block, index) =>
    block.instrs.map fun instr => (block.label, Site.mk instr index)
  let edges := (spans.flatMap fun span => (span.map Span.chain).getD [])
    ++ crossEdges spans successors
  return .ofLists nodes edges (firstNodes spans successors 0).head?

end Midend
