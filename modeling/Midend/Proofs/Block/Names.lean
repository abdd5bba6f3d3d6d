import Midend.Proofs.Block.Successors

/-!
# Names of blocks

The blocks that begin at a label have the labels of the body for their names, in order, and the
names that are invented for the other blocks differ from each other. Names therefore tell the blocks
apart exactly when no label is an invented name. Where the labels that are jumped to are no invented
names either, successors are resolved exactly when every one of them is declared, and each name
leads to the block that begins at it.
-/

namespace Midend

open Lang

/-- The labels that some entries jump to, in order. -/
def targetsOf (entries : List Entry) : List String :=
  (entries.filterMap Entry.instr?).flatMap Instruction.jumpTargets

/-- No label of a function, declared or jumped to, is the name invented for one of its blocks. -/
def Lang.Function.NamesApart (function : Function) : Prop :=
  ∀ block ∈ function.blocks, block.synthetic = true →
    block.label ∉ function.labels ∧ block.label ∉ targetsOf function.body

/-- A name leads to a block that begins where the body declares the name, and nowhere else. -/
def Lang.Function.LeadsTo (function : Function) (name : String) (index : Nat) : Prop :=
  ∃ block : Block, function.blocks[index]? = some block ∧ block.synthetic = false ∧
    block.label = name ∧
    ∀ place, place ∈ declarations name function.body ↔ place = startOf function.blocks index

/-- The labels in the code of blocks are the names of the blocks that are not invented. -/
theorem labelsOf_flatMap_code (blocks : List Block) :
    labelsOf (blocks.flatMap Block.code) =
      (blocks.filter fun block => !block.synthetic).map Block.label := by
  induction blocks with
  | nil => rfl
  | cons block blocks ih =>
    have instrs : labelsOf (block.instrs.map Entry.instr) = [] := by
      simp [labelsOf, Entry.label?]
    unfold labelsOf at ih instrs ⊢
    rw [List.flatMap_cons, List.filterMap_append, ih, Block.code, List.filterMap_append, instrs]
    cases invented : block.synthetic <;> simp [invented, Entry.label?]

/-- The blocks of a function that begin at labels are named by them. -/
theorem Lang.Function.map_label_visible (function : Function) :
    (function.blocks.filter fun block => !block.synthetic).map Block.label = function.labels := by
  rw [← labelsOf_flatMap_code, flatMap_code_blocks, labels]

/-- The indices of the terminators among entries, the first of which has the given index. -/
def terminatorsFrom : (index : Nat) → List Entry → List Nat
  | _, [] => []
  | index, .label .. :: entries => terminatorsFrom (index + 1) entries
  | index, .instr instr :: entries =>
    if instr.isTerminator then index :: terminatorsFrom (index + 1) entries
    else terminatorsFrom (index + 1) entries

/-- Indices count from the first one on. -/
theorem le_of_mem_terminatorsFrom {index number : Nat} {entries : List Entry}
    (member : number ∈ terminatorsFrom index entries) : index ≤ number := by
  induction entries generalizing index with
  | nil => simp [terminatorsFrom] at member
  | cons entry entries ih =>
    have further (later : number ∈ terminatorsFrom (index + 1) entries) : index ≤ number :=
      Nat.le_of_succ_le (ih later)
    cases entry with
    | label label pos => exact further member
    | instr instr =>
      rw [terminatorsFrom] at member
      split at member
      · rcases List.mem_cons.1 member with rfl | later
        · exact Nat.le_refl number
        · exact further later
      · exact further member

/-- No index is listed twice. -/
theorem terminatorsFrom_nodup (index : Nat) (entries : List Entry) :
    (terminatorsFrom index entries).Nodup := by
  induction entries generalizing index with
  | nil => exact List.nodup_nil
  | cons entry entries ih =>
    cases entry with
    | label label pos => exact ih (index + 1)
    | instr instr =>
      rw [terminatorsFrom]
      split
      · refine List.nodup_cons.2 ⟨fun member => ?_, ih (index + 1)⟩
        exact Nat.not_succ_le_self index (le_of_mem_terminatorsFrom member)
      · exact ih (index + 1)

/-- The blocks built from an open block and the entries behind it have invented names for the open
block, if its name is invented, and for what stands behind terminators. -/
theorem map_label_synthetic (name : String) (block : Block) (index : Nat) (entries : List Entry) :
    (((blocksFrom name block index entries).filter Block.synthetic).map Block.label).Sublist
      ((if block.synthetic then [block.label] else []) ++
        (terminatorsFrom index entries).map (nameBehind name)) := by
  have closed (other : Block) : ((other.unlessVoid.filter Block.synthetic).map Block.label).Sublist
      (if other.synthetic then [other.label] else []) := by
    unfold Block.unlessVoid
    split <;> cases invented : other.synthetic <;> simp [invented]
  induction entries generalizing block index with
  | nil =>
    rw [blocksFrom, terminatorsFrom, List.map_nil, List.append_nil]
    exact closed block
  | cons entry entries ih =>
    cases entry with
    | label label pos =>
      rw [blocksFrom, List.filter_append, List.map_append]
      exact (closed (block.addSuccessors [label])).append (ih (.atLabel label pos) (index + 1))
    | instr instr =>
      rw [blocksFrom, terminatorsFrom]
      split
      · rw [List.filter_append, List.map_append]
        exact (closed ((block.addSuccessors instr.jumpTargets).push instr)).append
          (ih (.invented (nameBehind name index)) (index + 1))
      · exact ih (block.push instr) (index + 1)

/-- The name of the first block is not invented for a block behind a terminator. -/
theorem start_ne_nameBehind (function : String) (index : Nat) :
    function ++ ".start" ≠ nameBehind function index := by
  intro same
  have texts := congrArg String.toList same
  simp [nameBehind] at texts

/-- The names invented for the blocks of a function differ from each other. -/
theorem Lang.Function.invented_nodup (function : Function) :
    ((function.blocks.filter Block.synthetic).map Block.label).Nodup := by
  have names := map_label_synthetic function.name (.invented (function.name ++ ".start")) 0
    function.body
  refine names.nodup (List.nodup_cons.2 ⟨fun member => ?_, ?_⟩)
  · obtain ⟨index, -, same⟩ := List.mem_map.1 member
    exact start_ne_nameBehind function.name index same.symm
  · exact (terminatorsFrom_nodup 0 function.body).map (nameBehind_injective function.name)

/-- Blocks are told apart by their names exactly when labels are, and no label is an invented
name. -/
theorem Lang.Function.map_label_nodup_iff (function : Function) :
    (function.blocks.map Block.label).Nodup ↔
      function.labels.Nodup ∧
        ∀ block ∈ function.blocks, block.synthetic = true → block.label ∉ function.labels := by
  have split := (List.filter_append_perm Block.synthetic function.blocks).map Block.label
  rw [← split.nodup_iff, List.map_append, function.map_label_visible, List.nodup_append']
  constructor
  · rintro ⟨-, distinct, disjoint⟩
    refine ⟨distinct, fun block member invented declared => ?_⟩
    exact disjoint (List.mem_map_of_mem (List.mem_filter.2 ⟨member, invented⟩)) declared
  · rintro ⟨distinct, apart⟩
    refine ⟨function.invented_nodup, distinct, fun name member declared => ?_⟩
    obtain ⟨block, among, rfl⟩ := List.mem_map.1 member
    obtain ⟨inside, invented⟩ := List.mem_filter.1 among
    exact apart block inside invented declared

/-- Blocks built from an open block and the entries behind it name the successors of the open block,
declared labels and targets of jumps. -/
theorem mem_next_blocksFrom (name : String) (current : Block) (index : Nat) (entries : List Entry)
    {block : Block} (member : block ∈ blocksFrom name current index entries) {label : String}
    (named : label ∈ block.next) :
    label ∈ current.next ∨ label ∈ labelsOf entries ∨ label ∈ targetsOf entries := by
  have closed {other : Block} (among : block ∈ other.unlessVoid) : block = other := by
    unfold Block.unlessVoid at among
    split at among <;> simp_all
  induction entries generalizing current index with
  | nil =>
    rw [closed member] at named
    exact .inl named
  | cons entry entries ih =>
    cases entry with
    | label other pos =>
      rw [blocksFrom, List.mem_append] at member
      rcases member with here | later
      · rw [closed here, Block.addSuccessors, List.mem_append, List.mem_singleton] at named
        rcases named with before | rfl
        · exact .inl before
        · exact .inr (.inl List.mem_cons_self)
      · rcases ih _ _ later with none | declared | target
        · cases none
        · exact .inr (.inl (List.mem_cons_of_mem _ declared))
        · exact .inr (.inr target)
    | instr instr =>
      have further (later : label ∈ labelsOf entries ∨ label ∈ targetsOf entries) :
          label ∈ labelsOf (.instr instr :: entries) ∨
            label ∈ targetsOf (.instr instr :: entries) := by
        refine later.imp_right fun target => ?_
        exact List.mem_append_right instr.jumpTargets target
      rw [blocksFrom] at member
      split at member
      · rcases List.mem_append.1 member with here | later
        · rw [closed here, Block.push, Block.addSuccessors, List.mem_append] at named
          refine named.imp_right fun target => .inr ?_
          exact List.mem_append_left (targetsOf entries) target
        · rcases ih _ _ later with none | others
          · cases none
          · exact .inr (further others)
      · exact (ih _ _ member).imp_right further

/-- Instructions that jump are terminators. -/
theorem isTerminator_of_mem_jumpTargets {instr : Instruction} {label : String}
    (jumps : label ∈ instr.jumpTargets) : instr.isTerminator = true := by
  cases instr with
  | const => cases jumps
  | value => cases jumps
  | effect op => cases op <;> first | rfl | cases jumps

/-- What is jumped to is named by a block. -/
theorem exists_next_of_mem_targetsOf (name : String) (current : Block) (index : Nat)
    (entries : List Entry) {label : String} (target : label ∈ targetsOf entries) :
    ∃ block ∈ blocksFrom name current index entries, label ∈ block.next := by
  induction entries generalizing current index with
  | nil => cases target
  | cons entry entries ih =>
    cases entry with
    | label other pos =>
      obtain ⟨block, member, named⟩ := ih (.atLabel other pos) (index + 1) target
      exact ⟨block, by rw [blocksFrom]; exact List.mem_append_right _ member, named⟩
    | instr instr =>
      have parts : label ∈ instr.jumpTargets ∨ label ∈ targetsOf entries :=
        List.mem_append.1 target
      by_cases leaves : instr.isTerminator = true
      · rw [blocksFrom, if_pos leaves]
        rcases parts with jumps | later
        · refine ⟨_, List.mem_append_left _
            (?_ : (current.addSuccessors instr.jumpTargets).push instr ∈ _), ?_⟩
          · simp [Block.unlessVoid, Block.isEmpty, Block.push]
          · simp [Block.push, Block.addSuccessors, jumps]
        · obtain ⟨block, member, named⟩ := ih (.invented (nameBehind name index)) (index + 1) later
          exact ⟨block, List.mem_append_right _ member, named⟩
      · rw [blocksFrom, if_neg leaves]
        rcases parts with jumps | later
        · exact absurd (isTerminator_of_mem_jumpTargets jumps) leaves
        · exact ih (current.push instr) (index + 1) later

/-- Names are resolved when every one of them is the name of a block, and only then. -/
theorem exists_successorTable_iff (blocks : List Block) :
    (∃ successors, successorTable blocks = .ok successors) ↔
      ∀ block ∈ blocks, ∀ label ∈ block.next, ∃ target ∈ blocks, target.label = label := by
  constructor
  · rintro ⟨successors, table⟩ block member label named
    have resolved := (successorTable_eq_ok_iff blocks successors).1 table
    obtain ⟨targets, -, names⟩ := exists_of_forall₂ resolved member
    obtain ⟨target, -, isNamed⟩ := exists_of_forall₂ names named
    obtain ⟨other, stands, same⟩ := label_of_blockNamed? isNamed
    exact ⟨other, List.mem_of_getElem? stands, same⟩
  · intro named
    refine exists_mapM_eq_ok _ _ fun block member => exists_mapM_eq_ok _ _ fun label among => ?_
    obtain ⟨target, stands, rfl⟩ := named block member label among
    obtain ⟨number, found⟩ := exists_blockNamed? stands
    exact ⟨number, by rw [found]⟩

/-- A declared label is the name of a block that begins at it, and such a name is a declared
label. -/
theorem Lang.Function.mem_labels_iff (function : Function) (label : String) :
    label ∈ function.labels ↔
      ∃ block ∈ function.blocks, block.synthetic = false ∧ block.label = label := by
  rw [← function.map_label_visible, List.mem_map]
  constructor
  · rintro ⟨block, among, same⟩
    obtain ⟨member, visible⟩ := List.mem_filter.1 among
    exact ⟨block, member, by simpa using visible, same⟩
  · rintro ⟨block, member, visible, same⟩
    exact ⟨block, List.mem_filter.2 ⟨member, by simpa using visible⟩, same⟩

/-- Where blocks are told apart by their names, a declared label that is resolved leads to the block
that begins at it. -/
theorem Lang.Function.leadsTo_of_blockNamed? {function : Function}
    (distinct : (function.blocks.map Block.label).Nodup) {label : String}
    (declared : label ∈ function.labels) {index : Nat}
    (named : blockNamed? label function.blocks = some index) : function.LeadsTo label index := by
  obtain ⟨block, member, visible, same⟩ := (function.mem_labels_iff label).1 declared
  obtain ⟨other, found, sameToo⟩ := label_of_blockNamed? named
  obtain ⟨number, stands⟩ := List.getElem?_of_mem member
  have equal := eq_of_label_eq distinct stands found (same.trans sameToo.symm)
  rw [equal] at stands
  refine ⟨block, stands, visible, same, fun place => ?_⟩
  rw [← flatMap_code_blocks function, mem_declarations_flatMap_iff]
  constructor
  · rintro ⟨target, third, standsToo, -, again, rfl⟩
    rw [eq_of_label_eq distinct standsToo stands (again.trans same.symm)]
  · rintro rfl
    exact ⟨index, block, stands, visible, same, rfl⟩

/-- Blocks name declared labels for their successors when all labels that are jumped to are
declared. -/
theorem Lang.Function.mem_labels_of_next {function : Function}
    (declared : ∀ label ∈ targetsOf function.body, label ∈ function.labels) {block : Block}
    (member : block ∈ function.blocks) {label : String} (named : label ∈ block.next) :
    label ∈ function.labels := by
  rcases mem_next_blocksFrom _ _ _ _ member named with none | label | target
  · cases none
  · exact label
  · exact declared label target

/-- Where labels that are declared or jumped to are no invented names, successors are resolved
exactly when every label that is jumped to is declared. -/
theorem Lang.Function.NamesApart.exists_successorTable_iff {function : Function}
    (apart : function.NamesApart) :
    (∃ successors, successorTable function.blocks = .ok successors) ↔
      ∀ label ∈ targetsOf function.body, label ∈ function.labels := by
  rw [Midend.exists_successorTable_iff]
  constructor
  · intro resolved label target
    obtain ⟨block, member, named⟩ := exists_next_of_mem_targetsOf function.name
      (.invented (function.name ++ ".start")) 0 function.body target
    obtain ⟨other, among, rfl⟩ := resolved block member label named
    cases invented : other.synthetic with
    | true => exact absurd target (apart other among invented).2
    | false => exact (function.mem_labels_iff _).2 ⟨other, among, invented, rfl⟩
  · intro declared block member label named
    have known := Function.mem_labels_of_next declared member named
    obtain ⟨other, among, -, same⟩ := (function.mem_labels_iff label).1 known
    exact ⟨other, among, same⟩

/-- Where the labels of a function are distinct, and none that it declares or jumps to is the name
invented for one of its blocks, names tell its blocks apart. Its successors are resolved exactly
when it declares every label that it jumps to, and each name is then resolved to the block that
begins at it. -/
theorem blocks_identifiedByNames (function : Function) (distinct : function.labels.Nodup)
    (apart : function.NamesApart) :
    (function.blocks.map Block.label).Nodup ∧
      ((∃ successors, successorTable function.blocks = .ok successors) ↔
        ∀ label ∈ targetsOf function.body, label ∈ function.labels) ∧
      ∀ successors, successorTable function.blocks = .ok successors →
        List.Forall₂ (fun block targets => List.Forall₂ function.LeadsTo block.next targets)
          function.blocks successors := by
  have names : (function.blocks.map Block.label).Nodup :=
    function.map_label_nodup_iff.2
      ⟨distinct, fun block member invented => (apart block member invented).1⟩
  refine ⟨names, apart.exists_successorTable_iff, fun successors table => ?_⟩
  have resolved := (successorTable_eq_ok_iff _ _).1 table
  have declared := apart.exists_successorTable_iff.1 ⟨successors, table⟩
  have known : ∀ block ∈ function.blocks, ∀ label ∈ block.next, label ∈ function.labels :=
    fun _ member _ named => Function.mem_labels_of_next declared member named
  refine ((List.forall₂_and_left _ _).2 ⟨known, resolved⟩).imp fun block targets both => ?_
  refine ((List.forall₂_and_left _ _).2 both).imp fun label index found => ?_
  exact Function.leadsTo_of_blockNamed? names found.1 found.2

/-- The names of the blocks of the loop to the start, one of which is invented, are resolved to the
blocks that begin at them. -/
theorem blocks_identifiedByNames_loopToStart :
    loopToStart.labels.Nodup ∧ loopToStart.NamesApart ∧
      loopToStart.blocks.map Block.label = ["top", "again", "main.l5", "out", "end"] ∧
      successorTable loopToStart.blocks = .ok [[1], [0, 3], [1], [4], []] ∧
      List.Forall₂ (fun block targets => List.Forall₂ loopToStart.LeadsTo block.next targets)
        loopToStart.blocks [[1], [0, 3], [1], [4], []] := by
  have distinct : loopToStart.labels.Nodup := by decide
  have apart : loopToStart.NamesApart := by
    unfold Function.NamesApart
    decide +kernel
  have table : successorTable loopToStart.blocks = .ok [[1], [0, 3], [1], [4], []] := by
    decide +kernel
  exact ⟨distinct, apart, by decide +kernel, table,
    (blocks_identifiedByNames loopToStart distinct apart).2.2 _ table⟩

/-- A function with a jump to the name invented for its first block, and with a label that is also
the name invented for the code behind a jump to the label. -/
def sharedNames : Function where
  name := "main"
  params := [⟨"x", .int⟩]
  body := [
    .instr (.effect .print { args := ["x"] } none),
    .instr (.effect .jmp { labels := ["main.start"] } none),
    .label "main.l5" none,
    .instr (.effect .jmp { labels := ["main.l5"] } none),
    .instr (.effect .print { args := ["x"] } none)]

/-- Names that a program shares with invented ones are no identities: two blocks have one name, a
jump to a label that is not declared is resolved, and the name of a label leads to a block that does
not begin at it. -/
theorem sharedNames_mislead :
    sharedNames.labels.Nodup ∧ ¬(sharedNames.blocks.map Block.label).Nodup ∧
      successorTable sharedNames.blocks = .ok [[0], [2], []] ∧
      "main.start" ∈ targetsOf sharedNames.body ∧ "main.start" ∉ sharedNames.labels ∧
      ¬sharedNames.LeadsTo "main.l5" 2 := by
  refine ⟨by decide, by decide +kernel, by decide +kernel, by decide, by decide, ?_⟩
  rintro ⟨block, found, visible, -⟩
  have invented : sharedNames.blocks[2]?.map Block.synthetic = some true := by decide +kernel
  rw [found, Option.map_some, visible] at invented
  cases invented

end Midend
