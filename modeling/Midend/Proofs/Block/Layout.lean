import Midend.Proofs.Block.Code
import Midend.Proofs.Execution
import Mathlib.Data.List.Nodup
import Std.Data.String.ToNat

/-!
# The layout of blocks

The blocks of a well-labelled function are laid out: control leaves a block only at its end, by a
terminator or into the block behind, the names of the blocks are distinct, and every jump finds a
block that begins at its label.
-/

namespace Midend

open Lang

/-- The labels that some entries declare, in order. -/
def labelsOf (entries : List Entry) : List String :=
  entries.filterMap fun entry => entry.label?.map Prod.fst

/-- The labels that a function declares, in order. -/
def Lang.Function.labels (function : Function) : List String :=
  labelsOf function.body

/-- A function whose labels are distinct and not among the names that are invented for its blocks,
and that jumps only to its own labels. -/
structure Lang.Function.WellLabelled (function : Function) : Prop where
  nodup : function.labels.Nodup
  declared : ∀ instr, .instr instr ∈ function.body → ∀ label ∈ instr.jumpTargets,
    label ∈ function.labels
  not_start : function.name ++ ".start" ∉ function.labels
  not_behind : ∀ number : Nat, function.name ++ ".l" ++ toString number ∉ function.labels

/-- The terminator at the end of a block. -/
def Block.terminator? (block : Block) : Option Instruction :=
  block.instrs.getLast?.filter Instruction.isTerminator

/-- The names of the blocks that control may enter from the end of a block, given the block
behind. -/
def Block.exits (block : Block) (behind? : Option Block) : List String :=
  match block.terminator? with
  | some terminator => terminator.jumpTargets
  | none => (behind?.map Block.label).toList

/-- A block that control leaves only at its end, and there to the successors that it names. -/
structure Block.EndsBefore (block : Block) (behind? : Option Block) : Prop where
  straight : ∀ instr ∈ block.instrs.dropLast, instr.isTerminator = false
  next_eq : block.next = block.exits behind?

/-- Blocks that can be run one after the other, with jumps between them. -/
structure Laid (blocks : List Block) : Prop where
  ends : ∀ index (block : Block), blocks[index]? = some block →
    block.EndsBefore blocks[index + 1]?
  labels_nodup : (blocks.map Block.label).Nodup
  targets : ∀ block ∈ blocks, ∀ instr ∈ block.instrs, ∀ label ∈ instr.jumpTargets,
    ∃ target ∈ blocks, target.label = label ∧ target.synthetic = false

/-- Blocks each of which ends before the one behind it. -/
def Chained : List Block → Prop
  | [] => True
  | block :: blocks => block.EndsBefore blocks.head? ∧ Chained blocks

/-- In a chain every block ends before the one behind it. -/
theorem Chained.endsBefore {blocks : List Block} (chained : Chained blocks) (index : Nat)
    (block : Block) (found : blocks[index]? = some block) :
    block.EndsBefore blocks[index + 1]? := by
  induction blocks generalizing index with
  | nil => simp at found
  | cons first others ih =>
    cases index with
    | zero =>
      obtain rfl : first = block := by simpa using found
      rw [List.getElem?_cons_succ, ← List.head?_eq_getElem?]
      exact chained.1
    | succ index => exact ih chained.2 index (by simpa using found)

/-- A block without terminators ends before the block that follows it by name. -/
theorem Block.EndsBefore.of_straight {block : Block} {behind? : Option Block}
    (straight : ∀ instr ∈ block.instrs, instr.isTerminator = false)
    (next_eq : block.next = (behind?.map Block.label).toList) : block.EndsBefore behind? := by
  constructor
  · intro instr member
    exact straight instr (List.dropLast_subset _ member)
  · have none_eq : block.terminator? = none := by
      rw [terminator?, Option.filter_eq_none_iff]
      intro last found
      simp [straight last (List.mem_of_getLast? found)]
    rw [next_eq, exits, none_eq]

/-- The blocks built from an open block that is not void begin with that block's name. -/
theorem head?_blocksFrom (name : String) (block : Block) (index : Nat) (entries : List Entry)
    (real : block.synthetic = false) :
    (blocksFrom name block index entries).head?.map Block.label = some block.label := by
  have kept (other : Block) (real : other.synthetic = false) : other.unlessVoid = [other] := by
    simp [Block.unlessVoid, real]
  induction entries generalizing block index with
  | nil =>
    rw [blocksFrom, kept block real]
    rfl
  | cons entry entries ih =>
    cases entry with
    | label label pos =>
      rw [blocksFrom, kept (block.addSuccessors [label]) real]
      rfl
    | instr instr =>
      rw [blocksFrom]
      split
      · rw [kept ((block.addSuccessors instr.jumpTargets).push instr) real]
        rfl
      · exact ih _ _ real

/-- Blocks are built in a chain. -/
theorem chained_blocksFrom (name : String) (block : Block) (index : Nat) (entries : List Entry)
    (straight : ∀ instr ∈ block.instrs, instr.isTerminator = false) (fresh : block.next = []) :
    Chained (blocksFrom name block index entries) := by
  induction entries generalizing block index with
  | nil =>
    rw [blocksFrom, Block.unlessVoid]
    split
    · trivial
    · exact ⟨.of_straight straight fresh, trivial⟩
  | cons entry entries ih =>
    cases entry with
    | label label pos =>
      have others := ih (.atLabel label pos) (index + 1) (by simp [Block.atLabel]) rfl
      rw [blocksFrom, Block.unlessVoid]
      split
      · exact others
      · refine ⟨.of_straight straight ?_, others⟩
        rw [List.append_eq, List.nil_append, head?_blocksFrom _ _ _ _ rfl]
        simp [Block.addSuccessors, Block.atLabel, fresh]
    | instr instr =>
      rw [blocksFrom]
      split
      next ends =>
        have others := ih (.invented (nameBehind name index)) (index + 1)
          (by simp [Block.invented]) rfl
        have filled :
            ((block.addSuccessors instr.jumpTargets).push instr).unlessVoid =
              [(block.addSuccessors instr.jumpTargets).push instr] := by
          simp [Block.unlessVoid, Block.isEmpty, Block.push]
        rw [filled]
        refine ⟨⟨?_, ?_⟩, others⟩
        · intro other member
          refine straight other ?_
          simpa [Block.push, Block.addSuccessors] using member
        · have found : ((block.addSuccessors instr.jumpTargets).push instr).terminator? =
              some instr := by
            simp [Block.terminator?, Block.push, Option.filter, ends]
          rw [Block.exits, found]
          simp [Block.push, Block.addSuccessors, fresh]
      next goesOn =>
        refine ih _ _ ?_ fresh
        intro other member
        rcases List.mem_append.1 member with old | new
        · exact straight other old
        · rw [List.mem_singleton.1 new]
          simpa using goesOn

/-- The names of the blocks that begin at or behind some entries. -/
def blockNames (function : String) : (index : Nat) → List Entry → List String
  | _, [] => []
  | index, .label name _ :: entries => name :: blockNames function (index + 1) entries
  | index, .instr instr :: entries =>
    if instr.isTerminator then nameBehind function index :: blockNames function (index + 1) entries
    else blockNames function (index + 1) entries

/-- Blocks are built under the names that their entries give, some of which are left out. -/
theorem map_label_blocksFrom (name : String) (block : Block) (index : Nat)
    (entries : List Entry) :
    ((blocksFrom name block index entries).map Block.label).Sublist
      (block.label :: blockNames name index entries) := by
  have short (other : Block) : (other.unlessVoid.map Block.label).Sublist [other.label] := by
    unfold Block.unlessVoid
    split <;> simp
  induction entries generalizing block index with
  | nil => exact short block
  | cons entry entries ih =>
    cases entry with
    | label label pos =>
      rw [blocksFrom, blockNames, List.map_append]
      exact (short (block.addSuccessors [label])).append (ih _ _)
    | instr instr =>
      rw [blocksFrom, blockNames]
      split
      · rw [List.map_append]
        exact (short ((block.addSuccessors instr.jumpTargets).push instr)).append (ih _ _)
      · exact ih _ _

/-- The names of blocks are declared labels or invented for the blocks behind terminators. -/
theorem mem_blockNames (function : String) (index : Nat) (entries : List Entry) {name : String}
    (member : name ∈ blockNames function index entries) :
    name ∈ entries.filterMap (fun entry => entry.label?.map Prod.fst) ∨
      ∃ terminator, index ≤ terminator ∧ name = nameBehind function terminator := by
  induction entries generalizing index with
  | nil => simp [blockNames] at member
  | cons entry entries ih =>
    have weaken (later : name ∈ blockNames function (index + 1) entries) :
        name ∈ (entry :: entries).filterMap (fun entry => entry.label?.map Prod.fst) ∨
          ∃ terminator, index ≤ terminator ∧ name = nameBehind function terminator := by
      rcases ih (index + 1) later with declared | ⟨terminator, behind, rfl⟩
      · refine .inl ?_
        rw [List.filterMap_cons]
        split
        · exact declared
        · exact List.mem_cons_of_mem _ declared
      · exact .inr ⟨terminator, by omega, rfl⟩
    cases entry with
    | label label pos =>
      rcases List.mem_cons.1 member with rfl | later
      · exact .inl (by simp [Entry.label?])
      · exact weaken later
    | instr instr =>
      rw [blockNames] at member
      split at member
      · rcases List.mem_cons.1 member with rfl | later
        · exact .inr ⟨index, Nat.le_refl index, rfl⟩
        · exact weaken later
      · exact weaken member

/-- Different terminators give different names to the blocks behind them. -/
theorem nameBehind_injective (function : String) : Function.Injective (nameBehind function) := by
  intro first second same
  have digits : toString (first + 2) = toString (second + 2) := by
    simpa [nameBehind] using same
  have numbers : first + 2 = second + 2 := Nat.repr_injective digits
  omega

/-- The names of the blocks of a well-labelled function are distinct. -/
theorem blockNames_nodup (function : String) (index : Nat) (entries : List Entry)
    (nodup : (entries.filterMap fun entry => entry.label?.map Prod.fst).Nodup)
    (apart : ∀ number : Nat, function ++ ".l" ++ toString number ∉
      entries.filterMap fun entry => entry.label?.map Prod.fst) :
    (blockNames function index entries).Nodup := by
  induction entries generalizing index with
  | nil => exact List.nodup_nil
  | cons entry entries ih =>
    cases entry with
    | label label pos =>
      have split : ((Entry.label label pos :: entries).filterMap fun entry =>
          entry.label?.map Prod.fst) =
            label :: entries.filterMap fun entry => entry.label?.map Prod.fst := rfl
      rw [split] at nodup apart
      have later := ih (index + 1) (List.nodup_cons.1 nodup).2 fun number member =>
        apart number (List.mem_cons_of_mem _ member)
      refine List.nodup_cons.2 ⟨fun member => ?_, later⟩
      rcases mem_blockNames function (index + 1) entries member with declared | ⟨other, _, rfl⟩
      · exact (List.nodup_cons.1 nodup).1 declared
      · exact apart (other + 2) List.mem_cons_self
    | instr instr =>
      have later := ih (index + 1) nodup apart
      rw [blockNames]
      split
      · refine List.nodup_cons.2 ⟨fun member => ?_, later⟩
        rcases mem_blockNames function (index + 1) entries member with
          declared | ⟨other, behind, same⟩
        · exact apart (index + 2) declared
        · have := nameBehind_injective function same
          omega
      · exact later

/-- A declared label is the name of a block of its own. -/
theorem exists_block_of_label (blocks : List Block) {label : String} {pos : Option Position}
    (declared : Entry.label label pos ∈ blocks.flatMap Block.code) :
    ∃ block ∈ blocks, block.label = label ∧ block.synthetic = false := by
  obtain ⟨block, member, within⟩ := List.mem_flatMap.1 declared
  refine ⟨block, member, ?_⟩
  unfold Block.code at within
  cases invented : block.synthetic <;> simp_all

/-- The blocks of a well-labelled function are laid out. -/
theorem Lang.Function.WellLabelled.laid {function : Function} (labelled : function.WellLabelled) :
    Laid function.blocks := by
  have chained : Chained function.blocks :=
    chained_blocksFrom _ _ _ _ (by simp [Block.invented]) rfl
  constructor
  · exact chained.endsBefore
  · refine (map_label_blocksFrom _ _ _ _).nodup (List.nodup_cons.2 ⟨fun member => ?_,
      blockNames_nodup _ _ _ labelled.nodup labelled.not_behind⟩)
    rcases mem_blockNames _ _ _ member with declared | ⟨terminator, _, same⟩
    · exact labelled.not_start declared
    · have texts := congrArg String.toList same
      simp [Block.invented, nameBehind] at texts
  · intro block member instr within label target
    have inBody : .instr instr ∈ function.body := by
      rw [← flatMap_code_blocks function]
      exact List.mem_flatMap.2 ⟨block, member, by simp [Block.code, within]⟩
    have declared := labelled.declared instr inBody label target
    obtain ⟨entry, among, found⟩ := List.mem_filterMap.1 declared
    cases entry with
    | label name pos =>
      obtain rfl : name = label := by simpa [Entry.label?] using found
      rw [← flatMap_code_blocks function] at among
      exact exists_block_of_label function.blocks among
    | instr other => simp [Entry.label?] at found

/-- A loop back to two labels at the start of the body, with a store that is never read, code behind
a terminator, and a label at the end. -/
def loopToStart : Function where
  name := "main"
  params := [⟨"going", .bool⟩]
  body := [
    .label "top" none,
    .label "again" none,
    .instr (.const "unread" .int (.int 1) none),
    .instr (.effect .br { args := ["going"], labels := ["top", "out"] } none),
    .instr (.effect .jmp { labels := ["again"] } none),
    .label "out" none,
    .instr (.effect .print { args := ["going"] } none),
    .label "end" none]

/-- A function is well-labelled when its labels are distinct, begin with another letter than its
name, and include those that it jumps to. -/
theorem Lang.Function.wellLabelled_of_initial {function : Function} (initial : Char)
    (named : function.name.toList.head? = some initial)
    (others : ∀ label ∈ function.labels, label.toList.head? ≠ some initial)
    (nodup : function.labels.Nodup)
    (declared : ∀ instr ∈ function.body.filterMap Entry.instr?, ∀ label ∈ instr.jumpTargets,
      label ∈ function.labels) : function.WellLabelled := by
  have apart (suffix : String) : function.name ++ suffix ∉ function.labels := by
    intro member
    refine others _ member ?_
    rw [String.toList_append, List.head?_append, named]
    rfl
  refine ⟨nodup, fun instr member => ?_, apart ".start", fun number => ?_⟩
  · exact declared instr (List.mem_filterMap.2 ⟨_, member, rfl⟩)
  · rw [String.append_assoc]
    exact apart _

/-- The loop is well-labelled. -/
theorem loopToStart_wellLabelled : loopToStart.WellLabelled :=
  Function.wellLabelled_of_initial 'm' (by decide) (by decide) (by decide) (by decide)

end Midend
