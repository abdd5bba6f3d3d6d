import Midend.Proofs.Block.Successors
import Midend.Proofs.Graph.Links
import Midend.Proofs.Graph.Search

/-!
# The instruction graph

The nodes of the instruction graph are the instructions of the blocks in order. An edge leads from
an instruction to the next one in its block and, from the last one of a block, to the instructions
that control meets first when it enters a successor.
-/

namespace Midend

open Lang

/-- The span of a block is made of the numbers of its instructions. -/
theorem getElem?_spansFrom (start : Nat) (blocks : List Block) (index : Nat) :
    (spansFrom start blocks)[index]? = blocks[index]?.map fun block =>
      if block.isEmpty then none
      else some ⟨start + baseOf blocks index,
        start + baseOf blocks index + block.instrs.length - 1⟩ := by
  induction blocks generalizing start index with
  | nil => rfl
  | cons first others ih =>
    cases index with
    | zero => simp [spansFrom, baseOf, offsetOf]
    | succ index =>
      have shifted : baseOf (first :: others) (index + 1) =
          first.instrs.length + baseOf others index :=
        offsetOf_cons_succ Block.instrs first others index
      rw [spansFrom, List.getElem?_cons_succ, List.getElem?_cons_succ, ih, shifted]
      simp only [Nat.add_assoc]

/-- A block has a span exactly when it has instructions. -/
theorem span_eq_some_iff (blocks : List Block) (index : Nat) (span : Span) :
    (spans blocks)[index]? = some (some span) ↔
      ∃ block : Block, blocks[index]? = some block ∧ 0 < block.instrs.length ∧
        span = ⟨baseOf blocks index, baseOf blocks index + block.instrs.length - 1⟩ := by
  rw [spans, getElem?_spansFrom]
  simp only [Nat.zero_add, Option.map_eq_some_iff]
  constructor
  · rintro ⟨block, found, same⟩
    by_cases void : block.isEmpty = true
    · simp [void] at same
    · have filled : 0 < block.instrs.length := by
        simpa [Block.isEmpty, List.length_pos_iff] using void
      rw [if_neg void, Option.some.injEq] at same
      exact ⟨block, found, filled, same.symm⟩
  · rintro ⟨block, found, filled, rfl⟩
    have void : ¬block.isEmpty = true := by
      simpa [Block.isEmpty, List.length_pos_iff] using filled
    exact ⟨block, found, by rw [if_neg void]⟩

/-- Control passes through a place unless a block with instructions stands there. -/
theorem span_isNone_iff (blocks : List Block) (place : Nat) :
    (((spans blocks)[place]?).join).isNone = true ↔
      ∀ block : Block, blocks[place]? = some block → block.instrs = [] := by
  rw [spans, getElem?_spansFrom]
  cases found : blocks[place]? with
  | none => simp
  | some block => by_cases void : block.isEmpty = true <;> simp_all [Block.isEmpty]

/-- Control goes from a block without instructions to a successor. -/
def SeesThrough (blocks : List Block) (successors : List (List Nat)) (source target : Nat) :
    Prop :=
  (∀ block : Block, blocks[source]? = some block → block.instrs = []) ∧
    target ∈ (successors[source]?).getD []

/-- The instructions met first are the first ones of the blocks seen through empty ones. -/
theorem mem_firstNodes_iff (blocks : List Block) (successors : List (List Nat))
    (block number : Nat) :
    number ∈ firstNodes (spans blocks) successors block ↔
      ∃ (place : Nat) (entered : Block),
        Relation.ReflTransGen (SeesThrough blocks successors) block place ∧
          blocks[place]? = some entered ∧ 0 < entered.instrs.length ∧
          number = baseOf blocks place := by
  have relation : Passes (fun place => (((spans blocks)[place]?).join).isNone) successors =
      SeesThrough blocks successors := by
    funext source target
    rw [Passes, SeesThrough, span_isNone_iff]
  unfold firstNodes
  rw [List.mem_filterMap]
  simp only [mem_reachedThrough_iff, List.mem_singleton, exists_eq_left, relation,
    Option.map_eq_some_iff, Option.join_eq_some_iff]
  constructor
  · rintro ⟨place, reaches, span, found, rfl⟩
    obtain ⟨entered, stands, filled, rfl⟩ := (span_eq_some_iff blocks place span).1 found
    exact ⟨place, entered, reaches, stands, filled, rfl⟩
  · rintro ⟨place, entered, reaches, stands, filled, rfl⟩
    exact ⟨place, reaches, _, (span_eq_some_iff blocks place _).2 ⟨entered, stands, filled, rfl⟩,
      rfl⟩

/-- Instructions met first are numbered like instructions. -/
theorem lt_of_mem_firstNodes {blocks : List Block} {successors : List (List Nat)}
    {block number : Nat} (member : number ∈ firstNodes (spans blocks) successors block) :
    number < (blocks.flatMap Block.instrs).length := by
  obtain ⟨place, entered, -, stands, filled, rfl⟩ :=
    (mem_firstNodes_iff blocks successors block number).1 member
  have behind := offsetOf_succ Block.instrs stands
  have bound := offsetOf_le Block.instrs blocks (place + 1)
  rw [baseOf]
  omega

/-- An edge of the instruction graph, in terms of the block that its source stands in. -/
def InstrEdge (blocks : List Block) (successors : List (List Nat)) (source target : Nat) : Prop :=
  ∃ (index : Nat) (block : Block) (offset : Nat), blocks[index]? = some block ∧
    offset < block.instrs.length ∧ source = baseOf blocks index + offset ∧
    (offset + 1 < block.instrs.length ∧ target = source + 1 ∨
      offset + 1 = block.instrs.length ∧
        ∃ next ∈ (successors[index]?).getD [], target ∈ firstNodes (spans blocks) successors next)

/-- The edges within blocks lead from an instruction to the next one. -/
theorem mem_chains_iff (blocks : List Block) (source target : Nat) :
    (source, target) ∈ (spans blocks).flatMap (fun span => (span.map Span.chain).getD []) ↔
      ∃ (index : Nat) (block : Block) (offset : Nat), blocks[index]? = some block ∧
        offset + 1 < block.instrs.length ∧ source = baseOf blocks index + offset ∧
        target = source + 1 := by
  rw [List.mem_flatMap]
  constructor
  · rintro ⟨span?, member, within⟩
    cases span? with
    | none => simp at within
    | some span =>
      obtain ⟨index, found⟩ := List.getElem?_of_mem member
      obtain ⟨block, stands, filled, rfl⟩ := (span_eq_some_iff blocks index span).1 found
      simp only [Option.map_some, Option.getD_some, Span.chain, List.mem_map, List.mem_range'_1,
        Prod.mk.injEq] at within
      obtain ⟨node, ⟨atLeast, below⟩, rfl, rfl⟩ := within
      exact ⟨index, block, node - baseOf blocks index, stands, by omega, by omega, rfl⟩
  · rintro ⟨index, block, offset, stands, inside, rfl, rfl⟩
    have found := (span_eq_some_iff blocks index _).2 ⟨block, stands, by omega, rfl⟩
    refine ⟨_, List.mem_of_getElem? found, ?_⟩
    simp only [Option.map_some, Option.getD_some, Span.chain, List.mem_map, List.mem_range'_1,
      Prod.mk.injEq]
    exact ⟨baseOf blocks index + offset, ⟨by omega, by omega⟩, rfl, rfl⟩

/-- The edges between blocks lead from the last instruction of one to the instructions met first
in its successors. -/
theorem mem_crossEdges_iff (blocks : List Block) (successors : List (List Nat))
    (source target : Nat) :
    (source, target) ∈ crossEdges (spans blocks) successors ↔
      ∃ (index : Nat) (block : Block) (offset : Nat), blocks[index]? = some block ∧
        offset + 1 = block.instrs.length ∧ source = baseOf blocks index + offset ∧
        ∃ next ∈ (successors[index]?).getD [],
          target ∈ firstNodes (spans blocks) successors next := by
  unfold crossEdges
  rw [List.mem_flatMap]
  constructor
  · rintro ⟨⟨span?, targets⟩, member, within⟩
    obtain ⟨index, found⟩ := List.getElem?_of_mem member
    obtain ⟨foundSpan, foundTargets⟩ := List.getElem?_zip_eq_some.1 found
    cases span? with
    | none => simp at within
    | some span =>
      obtain ⟨block, stands, filled, rfl⟩ := (span_eq_some_iff blocks index span).1 foundSpan
      simp only [List.mem_flatMap, List.mem_map, Prod.mk.injEq] at within
      obtain ⟨next, among, entry, first, rfl, rfl⟩ := within
      exact ⟨index, block, block.instrs.length - 1, stands, by omega, by omega, next,
        by simpa [foundTargets] using among, first⟩
  · rintro ⟨index, block, offset, stands, last, rfl, next, among, first⟩
    have foundSpan := (span_eq_some_iff blocks index _).2 ⟨block, stands, by omega, rfl⟩
    cases foundTargets : successors[index]? with
    | none => simp [foundTargets] at among
    | some targets =>
      rw [foundTargets, Option.getD_some] at among
      have foundBoth : ((spans blocks).zip successors)[index]? = some (_, targets) :=
        List.getElem?_zip_eq_some.2 ⟨foundSpan, foundTargets⟩
      refine ⟨_, List.mem_of_getElem? foundBoth, ?_⟩
      simp only [List.mem_flatMap, List.mem_map, Prod.mk.injEq]
      exact ⟨next, among, target, first, by omega, rfl⟩

/-- The edges that the instruction graph is built from. -/
theorem mem_instrEdges_iff (blocks : List Block) (successors : List (List Nat))
    (source target : Nat) :
    (source, target) ∈ (spans blocks).flatMap (fun span => (span.map Span.chain).getD [])
        ++ crossEdges (spans blocks) successors ↔
      InstrEdge blocks successors source target := by
  rw [List.mem_append, mem_chains_iff, mem_crossEdges_iff]
  constructor
  · rintro (⟨index, block, offset, stands, inside, same, next⟩ |
      ⟨index, block, offset, stands, last, same, next⟩)
    · exact ⟨index, block, offset, stands, by omega, same, .inl ⟨inside, next⟩⟩
    · exact ⟨index, block, offset, stands, by omega, same, .inr ⟨last, next⟩⟩
  · rintro ⟨index, block, offset, stands, -, same, ⟨inside, next⟩ | ⟨last, next⟩⟩
    · exact .inl ⟨index, block, offset, stands, inside, same, next⟩
    · exact .inr ⟨index, block, offset, stands, last, same, next⟩

/-- Edges of the instruction graph lead from instructions to instructions. -/
theorem InstrEdge.inside {blocks : List Block} {successors : List (List Nat)}
    {source target : Nat} (edge : InstrEdge blocks successors source target) :
    source < (blocks.flatMap Block.instrs).length ∧
      target < (blocks.flatMap Block.instrs).length := by
  obtain ⟨index, block, offset, stands, inside, rfl, ⟨within, rfl⟩ | ⟨-, next, -, first⟩⟩ := edge
  all_goals
    have behind := offsetOf_succ Block.instrs stands
    have bound := offsetOf_le Block.instrs blocks (index + 1)
    rw [baseOf]
  · omega
  · exact ⟨by omega, lt_of_mem_firstNodes first⟩

/-- The nodes of the instruction graph are the instructions of the blocks. -/
theorem map_instr_sites (blocks : List Block) :
    (blocks.zipIdx.flatMap fun (block, index) => block.instrs.map fun instr =>
      (block.label, Site.mk instr index)).map (fun node => node.2.instr) =
        blocks.flatMap Block.instrs := by
  rw [List.map_flatMap]
  simp only [List.map_map, Function.comp_def, List.map_id']
  have unnumbered : blocks.zipIdx.map Prod.fst = blocks := List.zipIdx_map_fst 0 blocks
  conv_rhs => rw [← unnumbered, List.flatMap_map]

/-- The edges of the instruction graph lead from nodes to nodes. -/
theorem inside_instrEdges (blocks : List Block) (successors : List (List Nat)) :
    ∀ edge ∈ (spans blocks).flatMap (fun span => (span.map Span.chain).getD [])
        ++ crossEdges (spans blocks) successors,
      edge.1 < (blocks.zipIdx.flatMap fun (block, index) => block.instrs.map fun instr =>
        (block.label, Site.mk instr index)).length ∧
      edge.2 < (blocks.zipIdx.flatMap fun (block, index) => block.instrs.map fun instr =>
        (block.label, Site.mk instr index)).length := by
  rintro ⟨source, target⟩ member
  rw [← List.length_map (fun node : String × Site => node.2.instr), map_instr_sites]
  exact ((mem_instrEdges_iff blocks successors source target).1 member).inside

/-- When the successors of blocks are found there is an instruction graph. Its nodes are the
instructions in order, and its edges those of control. -/
theorem exists_instrGraph {blocks : List Block} {successors : List (List Nat)}
    (table : successorTable blocks = .ok successors) :
    ∃ graph, instrGraph blocks = .ok graph ∧ graph.Linked ∧
      (∀ id, (graph.node? id).map (fun node => node.value.instr) =
        (blocks.flatMap Block.instrs)[id]?) ∧
      graph.size = (blocks.flatMap Block.instrs).length ∧
      (∀ source target, target ∈ graph.nextOf source ↔
        InstrEdge blocks successors source target) ∧
      graph.root = (firstNodes (spans blocks) successors 0).head? := by
  set nodes : List (String × Site) := blocks.zipIdx.flatMap fun (block, index) =>
    block.instrs.map fun instr => (block.label, Site.mk instr index) with nodes_def
  have instrs : nodes.map (fun node => node.2.instr) = blocks.flatMap Block.instrs :=
    map_instr_sites blocks
  have count : nodes.length = (blocks.flatMap Block.instrs).length := by
    rw [← instrs, List.length_map]
  obtain ⟨linked, size, members, kept, root⟩ := Graph.ofLists_spec nodes
    ((spans blocks).flatMap (fun span => (span.map Span.chain).getD [])
      ++ crossEdges (spans blocks) successors)
    (firstNodes (spans blocks) successors 0).head? (inside_instrEdges blocks successors)
  refine ⟨_, ?_, linked, ?_, size.trans count, ?_, root⟩
  · rw [instrGraph, table]
    rfl
  · intro id
    rw [← instrs, List.getElem?_map, ← kept id, Option.map_map]
    rfl
  · intro source target
    rw [members, mem_instrEdges_iff]

/-- The instruction graph can be built step by step. -/
theorem built_instrGraph {blocks : List Block} {graph : Graph Site}
    (made : instrGraph blocks = .ok graph) : graph.Built := by
  rw [instrGraph] at made
  cases table : successorTable blocks with
  | error fault => simp [table, bind, Except.bind] at made
  | ok successors =>
    simp only [table, bind, Except.bind, pure, Except.pure, Except.ok.injEq] at made
    rw [← made]
    exact Graph.built_ofLists _ _ _ (inside_instrEdges blocks successors)

/-- The root of the instruction graph is one of its nodes. -/
theorem root_lt_of_instrGraph {blocks : List Block} {successors : List (List Nat)}
    (table : successorTable blocks = .ok successors) {graph : Graph Site}
    (made : instrGraph blocks = .ok graph) {root : Nat} (isRoot : graph.root = some root) :
    root < graph.size := by
  obtain ⟨other, madeToo, -, -, size, -, first⟩ := exists_instrGraph table
  obtain rfl : graph = other := Except.ok.inj (made.symm.trans madeToo)
  rw [isRoot] at first
  rw [size]
  exact lt_of_mem_firstNodes (List.mem_of_head? first.symm)

end Midend
