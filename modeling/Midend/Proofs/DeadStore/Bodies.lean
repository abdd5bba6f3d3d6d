import Midend.Proofs.DeadStore.Chain
import Midend.Proofs.DeadStore.Paths
import Midend.Proofs.Graph.Flow

/-!
# Dead stores of bodies

Which stores of laid out blocks are dead can be told from their code alone: instructions are counted
through the body, and control goes from one to the next through labels, jumps and the ends of
blocks. How the body is split into blocks, what these are called and which of them are empty makes
no difference.
-/

namespace Midend

open Lang

/-- Control comes from one instruction of a body to another, both given by their numbers. -/
def NextInstr (body : List Entry) (source target : Nat) : Prop :=
  ∃ place instr, body[place]? = some (.instr instr) ∧ numberAt body place = source ∧
    ∃ behind ∈ placesBehind body place,
      target = numberAt body behind ∧ target < (body.filterMap Entry.instr?).length

/-- A numbered instruction of a body reads a variable. -/
def ReadsAt (body : List Entry) (name : String) (number : Nat) : Prop :=
  ∃ instr, (body.filterMap Entry.instr?)[number]? = some instr ∧ name ∈ instr.args

/-- Control comes from an instruction that does not write a variable to another one. -/
def PassesOver (body : List Entry) (name : String) (source target : Nat) : Prop :=
  (¬∃ instr, (body.filterMap Entry.instr?)[source]? = some instr ∧ instr.dest? = some name) ∧
    NextInstr body source target

/-- An instruction that control reaches does no more than write a variable, and from behind it
control comes to no instruction that reads the variable before one that writes it. -/
def DeadIn (body : List Entry) (number : Nat) : Prop :=
  Relation.ReflTransGen (NextInstr body) 0 number ∧
    ∃ instr name, (body.filterMap Entry.instr?)[number]? = some instr ∧
      instr.dest? = some name ∧ instr.hasSideEffects = false ∧
      ¬∃ first reader, NextInstr body number first ∧
        Relation.ReflTransGen (PassesOver body name) first reader ∧ ReadsAt body name reader

section Laid

variable {blocks : List Block} {successors : List (List Nat)}

/-- The edges between the instructions of laid out blocks are those of their code. -/
theorem Laid.instrEdge_iff (laid : Laid blocks) (table : successorTable blocks = .ok successors)
    (source target : Nat) :
    InstrEdge blocks successors source target ↔
      NextInstr (blocks.flatMap Block.code) source target := by
  rw [NextInstr, filterMap_flatMap_code]
  constructor
  · rintro ⟨index, block, offset, found, inside, rfl, edge⟩
    have stands := getElem?_flatMap_code found inside
    rw [List.getElem?_eq_getElem inside, Option.map_some] at stands
    exact ⟨_, _, stands, numberAt_instr found (Nat.le_of_lt inside),
      (laid.sameFlow table found inside target).1 edge⟩
  · rintro ⟨place, instr, stands, numbered, flows⟩
    obtain ⟨index, block, offset, found, early, rfl⟩ :=
      exists_offsetOf Block.code blocks (List.getElem?_eq_some_iff.1 stands).1
    rw [getElem?_flatMap_offsetOf Block.code found early] at stands
    obtain ⟨number, rfl, within⟩ := block.getElem?_code_eq_instr stands
    have inside : number < block.instrs.length := (List.getElem?_eq_some_iff.1 within).1
    obtain rfl := (numberAt_instr found (Nat.le_of_lt inside)).symm.trans numbered
    exact ⟨index, block, number, found, inside, rfl,
      (laid.sameFlow table found inside target).2 flows⟩

/-- The nodes of the instruction graph of laid out blocks are reachable when control comes to them
in the code, if there is an instruction. -/
theorem Laid.reachable_iff (laid : Laid blocks) {graph : Graph Site}
    (mirrors : Mirrors blocks successors graph) (filled : blocks.flatMap Block.instrs ≠ [])
    (number : Nat) :
    graph.Reachable number ↔
      Relation.ReflTransGen (NextInstr (blocks.flatMap Block.code)) 0 number := by
  have root : graph.root = some 0 := by
    rw [mirrors.root_eq, laid.head?_firstNodes mirrors.table, if_neg filled]
  rw [Graph.Reachable, root]
  simp only [mirrors.edges, laid.instrEdge_iff mirrors.table, Option.some.injEq, exists_eq_left']

/-- An instruction of the graph reads a variable when it does so in the code. -/
theorem Mirrors.reads_eq {graph : Graph Site} (mirrors : Mirrors blocks successors graph)
    (name : String) : Reads graph name = ReadsAt (blocks.flatMap Block.code) name := by
  funext number
  unfold Reads ReadsAt
  rw [filterMap_flatMap_code, ← mirrors.instrs]
  simp only [Option.map_eq_some_iff, exists_exists_and_eq_and]

/-- Edges of the graph lead past a variable when control passes over it in the code. -/
theorem Laid.leavesAlone_eq (laid : Laid blocks) {graph : Graph Site}
    (mirrors : Mirrors blocks successors graph) (name : String) :
    LeavesAlone graph name = PassesOver (blocks.flatMap Block.code) name := by
  funext source target
  unfold LeavesAlone PassesOver Defines
  rw [mirrors.edges, laid.instrEdge_iff mirrors.table, filterMap_flatMap_code, ← mirrors.instrs]
  simp only [Option.map_eq_some_iff, exists_exists_and_eq_and]

/-- A dead store of laid out blocks is an instruction that is dead in their code. -/
theorem Laid.isDeadStore_iff (laid : Laid blocks) {index offset : Nat} {block : Block}
    (found : blocks[index]? = some block) (inside : offset < block.instrs.length) :
    IsDeadStore blocks index offset ↔
      DeadIn (blocks.flatMap Block.code) (baseOf blocks index + offset) := by
  obtain ⟨successors, table⟩ := laid.exists_successorTable
  obtain ⟨graph, -, -, instrs, -, edges, root⟩ := exists_instrGraph table
  have mirrors : Mirrors blocks successors graph := ⟨table, instrs, edges, root⟩
  have stands : (blocks.flatMap Block.instrs)[baseOf blocks index + offset]? =
      block.instrs[offset]? := getElem?_flatMap_offsetOf Block.instrs found inside
  have filled : blocks.flatMap Block.instrs ≠ [] := by
    intro empty
    rw [empty, List.getElem?_nil, List.getElem?_eq_getElem inside] at stands
    cases stands
  -- Both sides are brought to the instruction graph, whose edges the code shows.
  have first : ∀ number ∈ firstNodes (spans blocks) successors 0, graph.Reachable number := by
    intro number member
    rw [((laid.mem_firstNodes_iff table 0 number).1 member).1, laid.reachable_iff mirrors filled]
    exact .refl
  have reached := mirrors.reachable_iff first found inside
  rw [laid.reachable_iff mirrors filled] at reached
  have unread (name : String) : ReadFrom blocks name index (offset + 1) ↔
      ∃ first reader, NextInstr (blocks.flatMap Block.code) (baseOf blocks index + offset) first ∧
        Relation.ReflTransGen (PassesOver (blocks.flatMap Block.code) name) first reader ∧
        ReadsAt (blocks.flatMap Block.code) name reader := by
    rw [mirrors.readFrom_iff, laid.leavesAlone_eq mirrors, mirrors.reads_eq]
    simp only [← instrEdge_iff_metBehind table found inside, laid.instrEdge_iff table]
  rw [IsDeadStore, DeadIn, ← reached, filterMap_flatMap_code, stands]
  simp only [← unread]
  refine and_congr_right fun _ => ⟨?_, ?_⟩
  · rintro ⟨other, instr, name, foundToo, rest⟩
    obtain rfl := Option.some.inj (found.symm.trans foundToo)
    exact ⟨instr, name, rest⟩
  · rintro ⟨instr, name, rest⟩
    exact ⟨block, instr, name, found, rest⟩

end Laid

end Midend
