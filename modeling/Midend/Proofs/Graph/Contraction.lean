import Midend.Proofs.Graph.Instructions

/-!
# Contracting empty blocks

The instruction graph has nodes for instructions only. Where control enters a block without
instructions, the edges go on to the first instructions that it comes to through such blocks, which
may have several successors and lead back to each other. What is reached in this way is found by a
search that comes to its end, and there is no other edge.
-/

namespace Midend

open Lang

section Blocks

variable {blocks : List Block} {successors : List (List Nat)}

/-- Entering a block, control comes through blocks without instructions to one that has some; the
number is that of its first instruction. -/
def MeetsFirst (blocks : List Block) (successors : List (List Nat)) (entered number : Nat) : Prop :=
  ∃ (place : Nat) (block : Block),
    Relation.ReflTransGen (SeesThrough blocks successors) entered place ∧
      blocks[place]? = some block ∧ block.instrs ≠ [] ∧ number = baseOf blocks place

/-- Looking for the instructions met first without a budget comes to its end, with the given
numbers: those of the first instructions of the blocks visited. -/
def FindsFirst (blocks : List Block) (successors : List (List Nat)) (entered : Nat)
    (numbers : List Nat) : Prop :=
  ∃ visited, Searches (onward (fun place => (((spans blocks)[place]?).join).isNone) successors)
      [entered] [] visited ∧
    numbers = visited.filterMap fun place => (((spans blocks)[place]?).join).map Span.first

/-- One instruction stands directly behind another in a block, or the other is the last one of its
block and control meets the one first when it enters a successor. -/
def FollowsOn (blocks : List Block) (successors : List (List Nat)) (source target : Nat) : Prop :=
  ∃ (index : Nat) (block : Block) (offset : Nat), blocks[index]? = some block ∧
    offset < block.instrs.length ∧ source = baseOf blocks index + offset ∧
    (offset + 1 < block.instrs.length ∧ target = source + 1 ∨
      offset + 1 = block.instrs.length ∧
        ∃ next ∈ (successors[index]?).getD [], MeetsFirst blocks successors next target)

/-- A graph with a node for each instruction, numbered in the order of the blocks, with an edge
where one instruction follows on another. It has a root when control meets an instruction at all,
and the root is one that control meets first. -/
structure ContractedGraph (blocks : List Block) (successors : List (List Nat))
    (graph : Graph Site) : Prop where
  linked : graph.Linked
  size_eq : graph.size = (blocks.flatMap Block.instrs).length
  node_eq : ∀ (index : Nat) (block : Block) (offset : Nat) (instr : Instruction),
    blocks[index]? = some block → block.instrs[offset]? = some instr →
    (graph.node? (baseOf blocks index + offset)).map (fun node => (node.label, node.value)) =
      some (block.label, ⟨instr, index⟩)
  edges : ∀ source target, graph.hasEdge source target = true ↔
    FollowsOn blocks successors source target
  root_none : graph.root = none ↔ ∀ number, ¬MeetsFirst blocks successors 0 number
  root_some : ∀ root, graph.root = some root → MeetsFirst blocks successors 0 root

/-- The instructions met first are those that a search finds. -/
theorem mem_firstNodes_iff_meetsFirst (entered number : Nat) :
    number ∈ firstNodes (spans blocks) successors entered ↔
      MeetsFirst blocks successors entered number := by
  simp only [mem_firstNodes_iff, MeetsFirst, List.length_pos_iff]

/-- The edges of the instruction graph lead to instructions that follow on. -/
theorem instrEdge_iff_followsOn (source target : Nat) :
    InstrEdge blocks successors source target ↔ FollowsOn blocks successors source target := by
  simp only [InstrEdge, FollowsOn, mem_firstNodes_iff_meetsFirst]

/-- The sites in front of a block are as many as the instructions. -/
theorem offsetOf_sites (blocks : List Block) (index : Nat) :
    offsetOf (fun item : Block × Nat => item.1.instrs.map fun instr =>
      (item.1.label, Site.mk instr item.2)) blocks.zipIdx index = baseOf blocks index := by
  have unnumbered : (blocks.zipIdx.take index).map Prod.fst = blocks.take index := by
    rw [List.map_take, List.zipIdx_map_fst]
  rw [offsetOf, baseOf, offsetOf, ← unnumbered, List.flatMap_map, List.length_flatMap,
    List.length_flatMap]
  simp only [List.length_map]

/-- The node of an instruction has the instruction, the number of its block and the name of that. -/
theorem node?_instrGraph {graph : Graph Site} (made : instrGraph blocks = .ok graph) {index : Nat}
    {block : Block} (stands : blocks[index]? = some block) {offset : Nat} {instr : Instruction}
    (within : block.instrs[offset]? = some instr) :
    (graph.node? (baseOf blocks index + offset)).map (fun node => (node.label, node.value)) =
      some (block.label, ⟨instr, index⟩) := by
  rw [instrGraph] at made
  cases table : successorTable blocks with
  | error fault => simp [table, bind, Except.bind] at made
  | ok successors =>
    simp only [table, bind, Except.bind, pure, Except.pure, Except.ok.injEq] at made
    obtain ⟨-, -, -, kept, -⟩ :=
      Graph.ofLists_spec _ _ (firstNodes (spans blocks) successors 0).head?
      (inside_instrEdges blocks successors)
    have numbered : blocks.zipIdx[index]? = some (block, index) := by simp [stands]
    have inside := (List.getElem?_eq_some_iff.1 within).1
    rw [← made, kept, ← offsetOf_sites,
      getElem?_flatMap_offsetOf _ numbered (by simpa using inside)]
    simp [within]

/-- The instructions met first are found whatever the number of steps. -/
theorem findsFirst_firstNodes (blocks : List Block) (successors : List (List Nat))
    (entered : Nat) :
    FindsFirst blocks successors entered (firstNodes (spans blocks) successors entered) :=
  ⟨_, searches_reachedThrough _ successors [entered], rfl⟩

/-- The root is the instruction found first. -/
theorem root_eq_head?_firstNodes {root : Option Nat}
    (first : root = (firstNodes (spans blocks) successors 0).head?) :
    (root = none ↔ ∀ number, ¬MeetsFirst blocks successors 0 number) ∧
      ∀ number, root = some number → MeetsFirst blocks successors 0 number := by
  simp only [← mem_firstNodes_iff_meetsFirst, first]
  constructor
  · rw [List.head?_eq_none_iff, List.eq_nil_iff_forall_not_mem]
  · exact fun number found => List.mem_of_head? found

end Blocks

/-- The instruction graph contracts empty blocks. When the successors of blocks are found, whatever
the blocks, looking for the instructions met first comes to its end, and there is a graph that has a
node for each instruction, edges to the instructions that follow on, directly or through empty
blocks alone, and a root among the instructions met first, if there are any. -/
theorem instrGraph_contracts (blocks : List Block) (successors : List (List Nat))
    (table : successorTable blocks = .ok successors) :
    (∀ entered,
      FindsFirst blocks successors entered (firstNodes (spans blocks) successors entered)) ∧
    ∃ graph, instrGraph blocks = .ok graph ∧ ContractedGraph blocks successors graph := by
  refine ⟨findsFirst_firstNodes blocks successors, ?_⟩
  obtain ⟨graph, made, linked, -, size, members, root⟩ := exists_instrGraph table
  obtain ⟨rootless, rooted⟩ := root_eq_head?_firstNodes root
  refine ⟨graph, made, linked, size, ?_, fun source target => ?_, rootless, rooted⟩
  · exact fun index block offset instr stands within => node?_instrGraph made stands within
  · rw [Graph.hasEdge_iff, members, instrEdge_iff_followsOn]

/-- Empty blocks that lead to each other and to two blocks with instructions, of which one goes back
to them and one ends in an empty block that leads to itself. -/
def emptyLoops : List Block := [
  { label := "enter", next := ["left", "right"] },
  { label := "left", next := ["right", "work"] },
  { label := "right", next := ["left", "rest"] },
  { label := "work", next := ["enter", "work"], instrs := [
      .effect .print { args := ["x"] } none,
      .effect .br { args := ["x"], labels := ["enter", "work"] } none] },
  { label := "rest", next := ["void"], instrs := [.effect .print { args := ["y"] } none] },
  { label := "void", next := ["void"] }]

/-- Control meets an instruction of the blocks, and the branch leads through the empty blocks to the
block that does not go back. -/
theorem instrGraph_contracts_emptyLoops :
    ∃ successors graph, successorTable emptyLoops = .ok successors ∧
      instrGraph emptyLoops = .ok graph ∧ ContractedGraph emptyLoops successors graph ∧
      graph.root ≠ none ∧ graph.hasEdge 1 2 = true := by
  have table : successorTable emptyLoops = .ok [[1, 2], [2, 3], [1, 4], [0, 3], [5], [5]] := rfl
  obtain ⟨-, graph, made, contracted⟩ := instrGraph_contracts emptyLoops _ table
  have meets : MeetsFirst emptyLoops [[1, 2], [2, 3], [1, 4], [0, 3], [5], [5]] 0 2 := by
    have through (place : Nat) (block : Block) (stands : emptyLoops[place]? = some block)
        (empty : block.instrs = []) :
        ∀ other : Block, emptyLoops[place]? = some other → other.instrs = [] := by
      intro other standsToo
      rwa [← Option.some.inj (stands.symm.trans standsToo)]
    refine ⟨4, _, ?_, rfl, nofun, rfl⟩
    refine .head (b := 2) ⟨through 0 _ rfl rfl, by decide⟩ ?_
    exact .single ⟨through 2 _ rfl rfl, by decide⟩
  refine ⟨_, graph, table, made, contracted, ?_, ?_⟩
  · exact fun rootless => contracted.root_none.1 rootless 2 meets
  · exact (contracted.edges 1 2).2
      ⟨3, _, 1, rfl, by decide, rfl, .inr ⟨rfl, 0, by decide, meets⟩⟩

example : (instrGraph emptyLoops).map (fun graph =>
    (graph.root, graph.nodes.toList.map Node.next)) = .ok (some 2, [[1], [2, 0], []]) := by
  decide +kernel

end Midend
