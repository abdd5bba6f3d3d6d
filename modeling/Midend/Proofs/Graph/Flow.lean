import Midend.Proofs.Block.Flow
import Midend.Proofs.Graph.Instructions

/-!
# The instruction graph as control flow

The instruction graph of a well-labelled function is the control flow of its body: it does not show
that the body was split into blocks, that some of them are empty, or how their names were resolved.
-/

namespace Midend

open Lang

/-- A graph whose nodes are the instructions of a body in order, with an edge from one instruction
to another exactly when the other is the first one that control meets behind it. -/
structure FlowGraph (body : List Entry) (graph : Graph Site) : Prop where
  linked : graph.Linked
  instrs : ∀ id, (graph.node? id).map (fun node => node.value.instr) =
    (body.filterMap Entry.instr?)[id]?
  edges : ∀ source target, graph.hasEdge source target = true ↔
    ∃ place instr, body[place]? = some (.instr instr) ∧ numberAt body place = source ∧
      ∃ behind ∈ placesBehind body place, ∃ first, FirstFrom body behind first ∧
        numberAt body first = target
  root_eq : graph.root = if body.filterMap Entry.instr? = [] then none else some 0

section Laid

variable {blocks : List Block} {successors : List (List Nat)}

/-- Control sees through empty blocks to blocks with the same first number. -/
theorem Laid.baseOf_eq_of_seesThrough (laid : Laid blocks)
    (table : successorTable blocks = .ok successors) {source target : Nat}
    (reaches : Relation.ReflTransGen (SeesThrough blocks successors) source target) :
    baseOf blocks target = baseOf blocks source := by
  induction reaches with
  | refl => rfl
  | @tail place next _ step ih =>
    rw [← ih]
    obtain ⟨void, follows⟩ := step
    by_cases inside : place < blocks.length
    · have found := List.getElem?_eq_getElem inside
      have empty := void _ found
      have goesOn : blocks[place].terminator? = none := by simp [Block.terminator?, empty]
      obtain ⟨rfl, -⟩ := (laid.mem_successors_onward table found goesOn next).1 follows
      rw [baseOf, offsetOf_succ Block.instrs found, empty]
      rfl
    · rw [← length_successors table] at inside
      rw [List.getElem?_eq_none (by omega)] at follows
      simp at follows

/-- The instruction met first in a laid out block is the first one behind its start, if there is
any. -/
theorem Laid.mem_firstNodes_iff (laid : Laid blocks)
    (table : successorTable blocks = .ok successors) (block number : Nat) :
    number ∈ firstNodes (spans blocks) successors block ↔
      number = baseOf blocks block ∧ number < (blocks.flatMap Block.instrs).length := by
  constructor
  · intro member
    obtain ⟨place, entered, reaches, -, -, rfl⟩ :=
      (Midend.mem_firstNodes_iff blocks successors block number).1 member
    exact ⟨laid.baseOf_eq_of_seesThrough table reaches, lt_of_mem_firstNodes member⟩
  · rintro ⟨rfl, ahead⟩
    rw [Midend.mem_firstNodes_iff]
    have inside : block < blocks.length := by
      by_contra beyond
      rw [baseOf, offsetOf_of_length_le Block.instrs (by omega)] at ahead
      omega
    obtain ⟨gap, total⟩ := Nat.exists_eq_add_of_le (Nat.le_of_lt inside)
    -- The induction goes over the blocks behind, each entered through the empty ones before it.
    induction gap generalizing block with
    | zero => omega
    | succ gap ih =>
      have found := List.getElem?_eq_getElem inside
      by_cases filled : 0 < blocks[block].instrs.length
      · exact ⟨block, blocks[block], .refl, found, filled, rfl⟩
      · have empty : blocks[block].instrs = [] := List.length_eq_zero_iff.1 (by omega)
        have same : baseOf blocks (block + 1) = baseOf blocks block := by
          rw [baseOf, offsetOf_succ Block.instrs found, empty]
          rfl
        have within : block + 1 < blocks.length := by
          by_contra beyond
          rw [← same, baseOf, offsetOf_of_length_le Block.instrs (by omega)] at ahead
          omega
        have goesOn : blocks[block].terminator? = none := by simp [Block.terminator?, empty]
        have follows := (laid.mem_successors_onward table found goesOn (block + 1)).2 ⟨rfl, within⟩
        obtain ⟨place, entered, reaches, stands, full, equal⟩ :=
          ih (block + 1) (by rwa [same]) within (by omega)
        refine ⟨place, entered, .head ⟨?_, follows⟩ reaches, stands, full, same ▸ equal⟩
        intro other isOther
        rw [found, Option.some.injEq] at isOther
        rw [← isOther, empty]

/-- The instruction that control meets first in laid out blocks is the first one. -/
theorem Laid.head?_firstNodes (laid : Laid blocks)
    (table : successorTable blocks = .ok successors) :
    (firstNodes (spans blocks) successors 0).head? =
      if blocks.flatMap Block.instrs = [] then none else some 0 := by
  have members := laid.mem_firstNodes_iff table 0
  have base : baseOf blocks 0 = 0 := offsetOf_zero Block.instrs blocks
  split
  next empty =>
    rw [List.head?_eq_none_iff, List.eq_nil_iff_forall_not_mem]
    intro number member
    have ahead := ((members number).1 member).2
    rw [empty, List.length_nil] at ahead
    omega
  next filled =>
    have first : 0 ∈ firstNodes (spans blocks) successors 0 :=
      (members 0).2 ⟨base.symm, List.length_pos_iff.2 filled⟩
    obtain ⟨number, others, same⟩ := List.exists_cons_of_ne_nil (List.ne_nil_of_mem first)
    have member : number ∈ firstNodes (spans blocks) successors 0 := by simp [same]
    rw [same, List.head?_cons, ((members number).1 member).1, base]

/-- Control behind an instruction of a block comes to the same instructions in the blocks and in the
body. -/
def SameFlow (blocks : List Block) (successors : List (List Nat)) (index : Nat) (block : Block)
    (offset : Nat) : Prop :=
  ∀ target : Nat,
    (offset + 1 < block.instrs.length ∧ target = baseOf blocks index + offset + 1 ∨
      offset + 1 = block.instrs.length ∧ ∃ next ∈ (successors[index]?).getD [],
        target ∈ firstNodes (spans blocks) successors next) ↔
      ∃ behind ∈ placesBehind (blocks.flatMap Block.code)
          (startOf blocks index + (block.width + offset)),
        target = numberAt (blocks.flatMap Block.code) behind ∧
          target < (blocks.flatMap Block.instrs).length

/-- Control comes to the same instructions behind a terminator, which ends its block. -/
theorem Laid.sameFlow_of_terminator (laid : Laid blocks)
    (table : successorTable blocks = .ok successors) {index : Nat} {block : Block}
    (found : blocks[index]? = some block) {offset : Nat} {instr : Instruction}
    (within : block.instrs[offset]? = some instr) (leaves : instr.isTerminator = true) :
    SameFlow blocks successors index block offset := by
  intro target
  obtain ⟨last, ends⟩ := (laid.ends index block found).eq_last within leaves
  simp only [laid.mem_firstNodes_iff table,
    laid.mem_placesBehind_terminator table found within leaves]
  constructor
  · rintro (⟨early, -⟩ | ⟨-, next, follows, rfl, ahead⟩)
    · omega
    · exact ⟨_, ⟨next, follows, rfl⟩, (numberAt_startOf blocks next).symm, ahead⟩
  · rintro ⟨_, ⟨next, follows, rfl⟩, same, ahead⟩
    exact .inr ⟨last, next, follows, same.trans (numberAt_startOf blocks next), ahead⟩

/-- Control comes to the same instruction behind one that is no terminator, be it in the same block
or at the start of the block behind. -/
theorem Laid.sameFlow_of_onward (laid : Laid blocks)
    (table : successorTable blocks = .ok successors) {index : Nat} {block : Block}
    (found : blocks[index]? = some block) {offset : Nat} {instr : Instruction}
    (within : block.instrs[offset]? = some instr) (stays : instr.isTerminator = false) :
    SameFlow blocks successors index block offset := by
  intro target
  have inside : offset < block.instrs.length := (List.getElem?_eq_some_iff.1 within).1
  have stands := getElem?_flatMap_code found inside
  rw [within, Option.map_some] at stands
  have behindBlock := offsetOf_succ Block.instrs found
  have total := offsetOf_le Block.instrs blocks (index + 1)
  have counted : numberAt (blocks.flatMap Block.code)
      (startOf blocks index + (block.width + (offset + 1))) =
        baseOf blocks index + (offset + 1) := numberAt_instr found inside
  rw [placesBehind_onward stands stays]
  simp only [laid.mem_firstNodes_iff table, List.mem_singleton, exists_eq_left, Nat.add_assoc]
    at counted ⊢
  rw [counted]
  constructor
  · rintro (⟨early, rfl⟩ | ⟨last, next, follows, rfl, ahead⟩)
    · exact ⟨rfl, by rw [baseOf]; omega⟩
    · have goesOn := Block.terminator?_eq_none within last stays
      obtain ⟨rfl, -⟩ := (laid.mem_successors_onward table found goesOn next).1 follows
      exact ⟨by rw [baseOf, baseOf]; omega, ahead⟩
  · rintro ⟨rfl, ahead⟩
    by_cases early : offset + 1 < block.instrs.length
    · exact .inl ⟨early, rfl⟩
    · have last : offset + 1 = block.instrs.length := by omega
      have goesOn := Block.terminator?_eq_none within last stays
      have behind : baseOf blocks (index + 1) = baseOf blocks index + (offset + 1) := by
        rw [baseOf, baseOf]
        omega
      have more : index + 1 < blocks.length := by
        by_contra beyond
        rw [← behind, baseOf, offsetOf_of_length_le Block.instrs (by omega)] at ahead
        omega
      exact .inr ⟨last, index + 1,
        (laid.mem_successors_onward table found goesOn _).2 ⟨rfl, more⟩, behind.symm, ahead⟩

/-- Control comes to the same instructions behind every instruction of a laid out block. -/
theorem Laid.sameFlow (laid : Laid blocks) (table : successorTable blocks = .ok successors)
    {index : Nat} {block : Block} (found : blocks[index]? = some block) {offset : Nat}
    (inside : offset < block.instrs.length) : SameFlow blocks successors index block offset := by
  have within := List.getElem?_eq_getElem inside
  cases leaves : block.instrs[offset].isTerminator with
  | true => exact laid.sameFlow_of_terminator table found within leaves
  | false => exact laid.sameFlow_of_onward table found within leaves

end Laid

/-- The instruction graph of a well-labelled function exists and is the control flow of its
body. -/
theorem instrGraph_blocks (function : Function) (labelled : function.WellLabelled) :
    ∃ graph, instrGraph function.blocks = .ok graph ∧ FlowGraph function.body graph := by
  have laid := labelled.laid
  obtain ⟨successors, table⟩ := laid.exists_successorTable
  obtain ⟨graph, built, linked, instrs, -, members, root⟩ := exists_instrGraph table
  refine ⟨graph, built, ?_⟩
  rw [← flatMap_code_blocks function]
  constructor
  · exact linked
  · rwa [filterMap_flatMap_code]
  · intro source target
    simp only [Graph.hasEdge_iff, members, exists_firstFrom_iff, filterMap_flatMap_code]
    constructor
    · rintro ⟨index, block, offset, found, inside, rfl, edge⟩
      have stands := getElem?_flatMap_code found inside
      rw [List.getElem?_eq_getElem inside, Option.map_some] at stands
      exact ⟨_, _, stands, numberAt_instr found (Nat.le_of_lt inside),
        (laid.sameFlow table found inside target).1 edge⟩
    · rintro ⟨place, instr, stands, numbered, flows⟩
      obtain ⟨index, block, offset, found, early, rfl⟩ :=
        exists_offsetOf Block.code function.blocks (List.getElem?_eq_some_iff.1 stands).1
      rw [getElem?_flatMap_offsetOf Block.code found early] at stands
      obtain ⟨number, rfl, within⟩ := block.getElem?_code_eq_instr stands
      have inside : number < block.instrs.length := (List.getElem?_eq_some_iff.1 within).1
      obtain rfl := (numberAt_instr found (Nat.le_of_lt inside)).symm.trans numbered
      exact ⟨index, block, number, found, inside, rfl,
        (laid.sameFlow table found inside target).2 flows⟩
  · rw [filterMap_flatMap_code, root, laid.head?_firstNodes table]

/-- The loop to two labels at the start has a graph, in which the branch goes back to the root. -/
theorem instrGraph_blocks_loopToStart :
    ∃ graph, instrGraph loopToStart.blocks = .ok graph ∧ FlowGraph loopToStart.body graph ∧
      graph.root = some 0 ∧ graph.hasEdge 1 0 = true := by
  obtain ⟨graph, built, flow⟩ := instrGraph_blocks loopToStart loopToStart_wellLabelled
  refine ⟨graph, built, flow, flow.root_eq, ?_⟩
  refine (flow.edges 1 0).2 ⟨3, _, rfl, rfl, 0, by decide, 2, ?_, rfl⟩
  refine ⟨by omega, ⟨_, rfl⟩, fun between _ below => ?_⟩
  have early : between = 0 ∨ between = 1 := by omega
  rcases early with rfl | rfl
  · exact ⟨"top", none, rfl⟩
  · exact ⟨"again", none, rfl⟩

end Midend
