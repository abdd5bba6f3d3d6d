import Midend.Proofs.Block.Successors
import Midend.Proofs.Graph.Links

/-!
# The block graph

The nodes of the block graph are the blocks in order, and its edges lead from each block to its
successors. The first block is the root.
-/

namespace Midend

/-- The edges that the block graph is built from lead to successors. -/
theorem mem_edgesOf_iff (successors : List (List Nat)) (source target : Nat) :
    (source, target) ∈ edgesOf successors ↔ target ∈ (successors[source]?).getD [] := by
  rw [edgesOf, List.mem_flatMap]
  constructor
  · rintro ⟨⟨targets, index⟩, listed, member⟩
    obtain ⟨other, among, same⟩ := List.mem_map.1 member
    obtain ⟨rfl, rfl⟩ := Prod.mk.inj same
    have found := List.mem_zipIdx_iff_getElem?.1 listed
    simpa [found] using among
  · intro among
    cases found : successors[source]? with
    | none => simp [found] at among
    | some targets =>
      rw [found, Option.getD_some] at among
      exact ⟨(targets, source), List.mem_zipIdx_iff_getElem?.2 found, List.mem_map_of_mem among⟩

/-- The edges to successors lead from blocks to blocks. -/
theorem inside_edgesOf {blocks : List Block} {successors : List (List Nat)}
    (table : successorTable blocks = .ok successors) :
    ∀ edge ∈ edgesOf successors, edge.1 < blocks.length ∧ edge.2 < blocks.length := by
  rintro ⟨source, target⟩ member
  have among := (mem_edgesOf_iff successors source target).1 member
  refine ⟨?_, lt_of_mem_successors table among⟩
  by_contra beyond
  rw [List.getElem?_eq_none (by rw [length_successors table]; omega)] at among
  simp at among

/-- When the successors of blocks are found there is a block graph. Its nodes are the blocks in
order, and its edges lead to the successors. -/
theorem exists_blockGraph {blocks : List Block} {successors : List (List Nat)}
    (table : successorTable blocks = .ok successors) :
    ∃ graph, blockGraph blocks = .ok graph ∧ graph.Built ∧
      (∀ id, (graph.node? id).map Node.value = blocks[id]?) ∧ graph.size = blocks.length ∧
      (∀ source target, target ∈ graph.nextOf source ↔
        target ∈ (successors[source]?).getD []) ∧
      graph.root = if blocks.isEmpty then none else some 0 := by
  have inside : ∀ edge ∈ edgesOf successors,
      edge.1 < (blocks.map fun block => (block.label, block)).length ∧
        edge.2 < (blocks.map fun block => (block.label, block)).length := by
    rw [List.length_map]
    exact inside_edgesOf table
  obtain ⟨-, size, members, kept, root⟩ := Graph.ofLists_spec
    (blocks.map fun block => (block.label, block)) (edgesOf successors)
    (if blocks.isEmpty then none else some 0) inside
  refine ⟨_, ?_, Graph.built_ofLists _ _ _ inside, fun id => ?_, ?_, fun source target => ?_, root⟩
  · rw [blockGraph, table]
    rfl
  · have values := congrArg (Option.map Prod.snd) (kept id)
    simpa [Option.map_map, Function.comp_def] using values
  · rw [size, List.length_map]
  · rw [members, mem_edgesOf_iff]

end Midend
