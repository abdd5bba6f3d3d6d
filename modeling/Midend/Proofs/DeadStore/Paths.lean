import Midend.Proofs.Dataflow.Reaching
import Midend.Proofs.DeadStore.Walk

/-!
# Reads along the edges between instructions

A place behind some instructions of a block stands for the instructions that control meets first
from there. A variable is read from the place on when a path of the instruction graph leads from one
of these to a read, past no write. The instructions that can be reached in the graph are those of
the blocks that control reaches.
-/

namespace Midend

open Lang

/-- A number belongs to one instruction of one block. -/
theorem eq_of_baseOf_add {blocks : List Block} {index other offset offsetToo : Nat}
    {block blockToo : Block} (found : blocks[index]? = some block)
    (foundToo : blocks[other]? = some blockToo) (inside : offset < block.instrs.length)
    (insideToo : offsetToo < blockToo.instrs.length)
    (same : baseOf blocks index + offset = baseOf blocks other + offsetToo) :
    index = other ∧ offset = offsetToo := by
  have apart {one another extra : Nat} {item : Block} (stands : blocks[one]? = some item)
      (within : extra < item.instrs.length) (before : one < another) :
      baseOf blocks one + extra < baseOf blocks another := by
    have behind := offsetOf_succ Block.instrs stands
    have ordered := offsetOf_mono Block.instrs blocks (Nat.succ_le_of_lt before)
    rw [Nat.succ_eq_add_one] at ordered
    rw [baseOf, baseOf]
    omega
  rcases Nat.lt_trichotomy index other with before | rfl | behind
  · have := apart found inside before
    omega
  · exact ⟨rfl, by omega⟩
  · have := apart foundToo insideToo behind
    omega

section Blocks

variable {blocks : List Block} {successors : List (List Nat)}

/-- An instruction is the first one that control meets behind the first instructions of a block. -/
def MetBehind (blocks : List Block) (successors : List (List Nat)) (index offset number : Nat) :
    Prop :=
  ∃ block : Block, blocks[index]? = some block ∧
    (offset < block.instrs.length ∧ number = baseOf blocks index + offset ∨
      offset = block.instrs.length ∧ ∃ next, GoesTo blocks index next ∧
        number ∈ firstNodes (spans blocks) successors next)

/-- Control meets first in a block what it meets behind none of its instructions. -/
theorem mem_firstNodes_iff_metBehind (table : successorTable blocks = .ok successors)
    {index : Nat} {block : Block} (found : blocks[index]? = some block) (number : Nat) :
    number ∈ firstNodes (spans blocks) successors index ↔
      MetBehind blocks successors index 0 number := by
  simp only [MetBehind, mem_firstNodes_iff]
  constructor
  · rintro ⟨place, entered, reaches, stands, filled, rfl⟩
    rcases reaches.cases_head with rfl | ⟨next, ⟨void, follows⟩, reaches⟩
    · exact ⟨entered, stands, .inl ⟨filled, rfl⟩⟩
    · refine ⟨block, found, .inr ⟨?_, next, ?_, place, entered, reaches, stands, filled, rfl⟩⟩
      · rw [void block found, List.length_nil]
      · exact (mem_successors_iff_goesTo table index next).1 follows
  · rintro ⟨other, stands, ⟨filled, rfl⟩ | ⟨empty, next, goes, place, entered, reaches, standsToo,
      filled, rfl⟩⟩
    · exact ⟨index, other, .refl, stands, filled, rfl⟩
    · refine ⟨place, entered, .head ⟨fun item isItem => ?_, ?_⟩ reaches, standsToo, filled, rfl⟩
      · obtain rfl := Option.some.inj (stands.symm.trans isItem)
        exact List.length_eq_zero_iff.1 empty.symm
      · exact (mem_successors_iff_goesTo table index next).2 goes

/-- An edge leads from an instruction to those that control meets first behind it. -/
theorem instrEdge_iff_metBehind (table : successorTable blocks = .ok successors)
    {index offset : Nat} {block : Block} (found : blocks[index]? = some block)
    (inside : offset < block.instrs.length) (target : Nat) :
    InstrEdge blocks successors (baseOf blocks index + offset) target ↔
      MetBehind blocks successors index (offset + 1) target := by
  simp only [InstrEdge, MetBehind, mem_successors_iff_goesTo table]
  constructor
  · rintro ⟨other, item, place, stands, within, same, leads⟩
    obtain ⟨rfl, rfl⟩ := eq_of_baseOf_add found stands inside within same
    exact ⟨item, stands, leads⟩
  · rintro ⟨other, stands, leads⟩
    obtain rfl := Option.some.inj (found.symm.trans stands)
    exact ⟨index, block, offset, found, inside, rfl, leads⟩

variable {graph : Graph Site} {name : String}

/-- The instruction of a node reads a variable. -/
def Reads (graph : Graph Site) (name : String) (id : Nat) : Prop :=
  ∃ node, graph.node? id = some node ∧ name ∈ node.value.instr.args

/-- The nodes of a graph are the instructions of blocks, with edges to those that control meets
first behind them. -/
structure Mirrors (blocks : List Block) (successors : List (List Nat)) (graph : Graph Site) :
    Prop where
  table : successorTable blocks = .ok successors
  instrs : ∀ id, (graph.node? id).map (fun node => node.value.instr) =
    (blocks.flatMap Block.instrs)[id]?
  edges : ∀ source target, target ∈ graph.nextOf source ↔ InstrEdge blocks successors source target
  root_eq : graph.root = (firstNodes (spans blocks) successors 0).head?

/-- The node of an instruction. -/
theorem Mirrors.exists_node? (mirrors : Mirrors blocks successors graph) {index offset : Nat}
    {block : Block} {instr : Instruction} (found : blocks[index]? = some block)
    (within : block.instrs[offset]? = some instr) :
    ∃ node, graph.node? (baseOf blocks index + offset) = some node ∧ node.value.instr = instr := by
  have inside := (List.getElem?_eq_some_iff.1 within).1
  have stands := mirrors.instrs (baseOf blocks index + offset)
  rw [baseOf, getElem?_flatMap_offsetOf Block.instrs found inside, within] at stands
  exact Option.map_eq_some_iff.1 stands

/-- The edges from an instruction. -/
theorem Mirrors.mem_nextOf_iff (mirrors : Mirrors blocks successors graph) {index offset : Nat}
    {block : Block} (found : blocks[index]? = some block) (inside : offset < block.instrs.length)
    (target : Nat) :
    target ∈ graph.nextOf (baseOf blocks index + offset) ↔
      MetBehind blocks successors index (offset + 1) target := by
  rw [mirrors.edges, instrEdge_iff_metBehind mirrors.table found inside]

/-- A variable that is read from a block on is read from the empty blocks on through which control
sees it. -/
theorem ReadFrom.of_seesThrough (table : successorTable blocks = .ok successors)
    {source target : Nat}
    (reaches : Relation.ReflTransGen (SeesThrough blocks successors) source target)
    (ahead : ReadFrom blocks name target 0) : ReadFrom blocks name source 0 := by
  induction reaches using Relation.ReflTransGen.head_induction_on with
  | refl => exact ahead
  | @head source next step _ ih =>
    obtain ⟨void, follows⟩ := step
    obtain ⟨block, found, named⟩ := (mem_successors_iff_goesTo table source next).1 follows
    have empty : block.instrs.length = 0 := by rw [void block found, List.length_nil]
    exact empty ▸ .into found ⟨block, found, named⟩ ih

/-- A variable is read from a place on when it is read from an instruction on that is met there. -/
theorem MetBehind.readFrom (table : successorTable blocks = .ok successors)
    {index offset number : Nat} (met : MetBehind blocks successors index offset number)
    (ahead : ∀ (index offset : Nat) (block : Block), blocks[index]? = some block →
      offset < block.instrs.length → number = baseOf blocks index + offset →
      ReadFrom blocks name index offset) :
    ReadFrom blocks name index offset := by
  obtain ⟨block, found, ⟨inside, same⟩ | ⟨rfl, next, goes, first⟩⟩ := met
  · exact ahead index offset block found inside same
  · obtain ⟨place, entered, reaches, stands, filled, same⟩ :=
      (mem_firstNodes_iff blocks successors next number).1 first
    have there := ahead place 0 entered stands filled (by rw [same, Nat.add_zero])
    exact .into found goes (.of_seesThrough table reaches there)

/-- A variable is read from an instruction on from which a path leads to one that reads it, past
none that writes it. -/
theorem Mirrors.readFrom_of_path (mirrors : Mirrors blocks successors graph) {number reader : Nat}
    (path : Relation.ReflTransGen (LeavesAlone graph name) number reader)
    (reads : Reads graph name reader) {index offset : Nat} {block : Block}
    (found : blocks[index]? = some block) (inside : offset < block.instrs.length)
    (same : number = baseOf blocks index + offset) : ReadFrom blocks name index offset := by
  induction path using Relation.ReflTransGen.head_induction_on generalizing index offset block with
  | refl =>
    obtain ⟨node, isNode, reads⟩ := reads
    have within := List.getElem?_eq_getElem inside
    obtain ⟨other, isOther, isInstr⟩ := mirrors.exists_node? found within
    rw [← same, isNode, Option.some.injEq] at isOther
    exact .here found within (isInstr ▸ isOther ▸ reads)
  | @head source next step _ ih =>
    obtain ⟨alone, follows⟩ := step
    have within := List.getElem?_eq_getElem inside
    obtain ⟨node, isNode, isInstr⟩ := mirrors.exists_node? found within
    rw [same] at alone follows
    have met := (mirrors.mem_nextOf_iff found inside next).1 follows
    refine .past found within (fun writes => alone ⟨node, isNode, isInstr ▸ writes⟩) ?_
    exact met.readFrom mirrors.table fun _ _ _ stands within equal => ih stands within equal

/-- A variable is read from a place on when a path leads from an instruction met there to one that
reads it, past none that writes it. -/
theorem Mirrors.readFrom_iff (mirrors : Mirrors blocks successors graph) (index offset : Nat) :
    ReadFrom blocks name index offset ↔
      ∃ first reader, MetBehind blocks successors index offset first ∧
        Relation.ReflTransGen (LeavesAlone graph name) first reader ∧ Reads graph name reader := by
  constructor
  · intro ahead
    induction ahead with
    | @here index offset block instr found within reads =>
      obtain ⟨node, isNode, rfl⟩ := mirrors.exists_node? found within
      have inside := (List.getElem?_eq_some_iff.1 within).1
      exact ⟨_, _, ⟨block, found, .inl ⟨inside, rfl⟩⟩, .refl, node, isNode, reads⟩
    | @past index offset block instr found within keeps _ ih =>
      obtain ⟨first, reader, met, path, reads⟩ := ih
      obtain ⟨node, isNode, rfl⟩ := mirrors.exists_node? found within
      have inside := (List.getElem?_eq_some_iff.1 within).1
      refine ⟨_, reader, ⟨block, found, .inl ⟨inside, rfl⟩⟩, .head ⟨?_, ?_⟩ path, reads⟩
      · rintro ⟨other, isOther, writes⟩
        obtain rfl := Option.some.inj (isNode.symm.trans isOther)
        exact keeps writes
      · exact (mirrors.mem_nextOf_iff found inside first).2 met
    | @into index next block found goes later ih =>
      obtain ⟨first, reader, met, path, reads⟩ := ih
      obtain ⟨entered, stands⟩ := later.exists_block
      refine ⟨first, reader, ⟨block, found, .inr ⟨rfl, next, goes, ?_⟩⟩, path, reads⟩
      exact (mem_firstNodes_iff_metBehind mirrors.table stands first).2 met
  · rintro ⟨first, reader, met, path, reads⟩
    exact met.readFrom mirrors.table fun _ _ _ stands inside same =>
      mirrors.readFrom_of_path path reads stands inside same

/-- The instructions of a block are reachable when those are that control meets first in it. -/
theorem Mirrors.reachable_within (mirrors : Mirrors blocks successors graph) {index : Nat}
    {block : Block} (found : blocks[index]? = some block)
    (first : ∀ number ∈ firstNodes (spans blocks) successors index, graph.Reachable number)
    {offset : Nat} (inside : offset < block.instrs.length) :
    graph.Reachable (baseOf blocks index + offset) := by
  induction offset with
  | zero =>
    refine first _ ((mem_firstNodes_iff_metBehind mirrors.table found _).2 ?_)
    exact ⟨block, found, .inl ⟨inside, rfl⟩⟩
  | succ offset ih =>
    have before : offset < block.instrs.length := Nat.lt_of_succ_lt inside
    refine (ih before).next ((mirrors.mem_nextOf_iff found before _).2 ?_)
    exact ⟨block, found, .inl ⟨inside, rfl⟩⟩

/-- What control meets first in a block that it reaches is reachable, if this is so of the first
block. -/
theorem Mirrors.reachable_of_mem_firstNodes (mirrors : Mirrors blocks successors graph)
    (first : ∀ number ∈ firstNodes (spans blocks) successors 0, graph.Reachable number)
    {index : Nat} (reaches : Relation.ReflTransGen (GoesTo blocks) 0 index) :
    ∀ number ∈ firstNodes (spans blocks) successors index, graph.Reachable number := by
  induction reaches with
  | refl => exact first
  | @tail source target _ goes ih =>
    intro number member
    have leaves := goes
    obtain ⟨block, found, -⟩ := leaves
    have met : MetBehind blocks successors source block.instrs.length number :=
      ⟨block, found, .inr ⟨rfl, target, goes, member⟩⟩
    cases count : block.instrs.length with
    | zero =>
      rw [count] at met
      exact ih number ((mem_firstNodes_iff_metBehind mirrors.table found number).2 met)
    | succ last =>
      rw [count] at met
      have inside : last < block.instrs.length := count ▸ Nat.lt_succ_self last
      exact (mirrors.reachable_within found ih inside).next
        ((mirrors.mem_nextOf_iff found inside number).2 met)

/-- Control sees only blocks that it reaches. -/
theorem goesTo_of_seesThrough (table : successorTable blocks = .ok successors) {source target : Nat}
    (sees : Relation.ReflTransGen (SeesThrough blocks successors) source target) :
    Relation.ReflTransGen (GoesTo blocks) source target :=
  Relation.ReflTransGen.mono (fun source target ⟨_, follows⟩ =>
    (mem_successors_iff_goesTo table source target).1 follows) _ _ sees

/-- Reachable instructions stand in blocks that control reaches. -/
theorem Mirrors.exists_block_of_reachable (mirrors : Mirrors blocks successors graph) {id : Nat}
    (reachable : graph.Reachable id) :
    ∃ (index offset : Nat) (block : Block), blocks[index]? = some block ∧
      offset < block.instrs.length ∧ id = baseOf blocks index + offset ∧
      Relation.ReflTransGen (GoesTo blocks) 0 index := by
  have entered {next number : Nat} (reaches : Relation.ReflTransGen (GoesTo blocks) 0 next)
      (member : number ∈ firstNodes (spans blocks) successors next) :
      ∃ (index offset : Nat) (block : Block), blocks[index]? = some block ∧
        offset < block.instrs.length ∧ number = baseOf blocks index + offset ∧
        Relation.ReflTransGen (GoesTo blocks) 0 index := by
    obtain ⟨place, block, sees, found, filled, same⟩ :=
      (mem_firstNodes_iff blocks successors next number).1 member
    exact ⟨place, 0, block, found, filled, same,
      reaches.trans (goesTo_of_seesThrough mirrors.table sees)⟩
  obtain ⟨root, isRoot, path⟩ := reachable
  induction path with
  | refl =>
    rw [mirrors.root_eq] at isRoot
    exact entered .refl (List.mem_of_head? isRoot)
  | tail _ follows ih =>
    obtain ⟨index, offset, block, found, inside, rfl, reaches⟩ := ih
    obtain ⟨other, stands, ⟨within, rfl⟩ | ⟨-, next, goes, member⟩⟩ :=
      (mirrors.mem_nextOf_iff found inside _).1 follows
    · exact ⟨index, offset + 1, other, stands, within, rfl, reaches⟩
    · exact entered (reaches.tail goes) member

/-- An instruction is reachable when control reaches its block. -/
theorem Mirrors.reachable_iff (mirrors : Mirrors blocks successors graph)
    (first : ∀ number ∈ firstNodes (spans blocks) successors 0, graph.Reachable number)
    {index offset : Nat} {block : Block} (found : blocks[index]? = some block)
    (inside : offset < block.instrs.length) :
    graph.Reachable (baseOf blocks index + offset) ↔
      Relation.ReflTransGen (GoesTo blocks) 0 index := by
  constructor
  · intro reachable
    obtain ⟨other, place, item, stands, within, same, reaches⟩ :=
      mirrors.exists_block_of_reachable reachable
    rwa [(eq_of_baseOf_add found stands inside within same).1]
  · intro reaches
    exact mirrors.reachable_within found (mirrors.reachable_of_mem_firstNodes first reaches) inside

end Blocks

/-- Control sees from a block of a function to one other at most. -/
theorem Lang.Function.seesThrough_rightUnique {function : Function} {successors : List (List Nat)}
    (table : successorTable function.blocks = .ok successors) :
    Relator.RightUnique (SeesThrough function.blocks successors) := by
  intro source target other ⟨void, follows⟩ ⟨_, followsToo⟩
  obtain ⟨block, found, label, named, isTarget⟩ :=
    (mem_successors_iff_goesTo table source target).1 follows
  obtain ⟨blockToo, foundToo, labelToo, namedToo, isOther⟩ :=
    (mem_successors_iff_goesTo table source other).1 followsToo
  obtain rfl := Option.some.inj (found.symm.trans foundToo)
  have ends := (chained_blocksFrom function.name (.invented (function.name ++ ".start")) 0
    function.body (by simp [Block.invented]) rfl).endsBefore source block found
  have goesOn : block.terminator? = none := by simp [Block.terminator?, void block found]
  rw [ends.next_eq, Block.exits, goesOn] at named namedToo
  dsimp only at named namedToo
  rw [Option.mem_toList] at named namedToo
  obtain rfl := Option.some.inj (named.symm.trans namedToo)
  exact Option.some.inj (isTarget.symm.trans isOther)

/-- Control meets one instruction at most first in a block of a function. -/
theorem Lang.Function.eq_of_mem_firstNodes {function : Function} {successors : List (List Nat)}
    (table : successorTable function.blocks = .ok successors) {index number other : Nat}
    (member : number ∈ firstNodes (spans function.blocks) successors index)
    (memberToo : other ∈ firstNodes (spans function.blocks) successors index) : number = other := by
  have stops {place next : Nat} {block : Block} (found : function.blocks[place]? = some block)
      (filled : 0 < block.instrs.length)
      (sees : Relation.ReflTransGen (SeesThrough function.blocks successors) place next) :
      next = place := by
    rcases sees.cases_head with same | ⟨_, ⟨void, _⟩, _⟩
    · exact same.symm
    · rw [void block found] at filled
      cases filled
  obtain ⟨place, block, sees, found, filled, rfl⟩ :=
    (mem_firstNodes_iff function.blocks successors index number).1 member
  obtain ⟨placeToo, blockToo, seesToo, foundToo, filledToo, rfl⟩ :=
    (mem_firstNodes_iff function.blocks successors index other).1 memberToo
  rcases Relation.ReflTransGen.total_of_right_unique (seesThrough_rightUnique table) sees seesToo
    with onward | back
  · rw [stops found filled onward]
  · rw [stops foundToo filledToo back]

/-- What control meets first in the first block of a function is reachable. -/
theorem Lang.Function.reachable_of_mem_firstNodes {function : Function} {graph : Graph Site}
    {successors : List (List Nat)} (mirrors : Mirrors function.blocks successors graph)
    (number : Nat) (member : number ∈ firstNodes (spans function.blocks) successors 0) :
    graph.Reachable number := by
  obtain ⟨first, others, listed⟩ := List.exists_cons_of_ne_nil (List.ne_nil_of_mem member)
  have isRoot : graph.root = some first := by rw [mirrors.root_eq, listed, List.head?_cons]
  have isFirst : first ∈ firstNodes (spans function.blocks) successors 0 := by simp [listed]
  rw [eq_of_mem_firstNodes mirrors.table member isFirst]
  exact Graph.reachable_root isRoot

end Midend
