import Midend.Proofs.Block.Places

/-!
# Successors of blocks

Names of blocks are resolved to numbers. When blocks are laid out, every name is found, and the
successors of a block are the blocks that its terminator jumps to or, without a terminator, the
block behind.
-/

namespace Midend

open Lang Execution

/-- The block of a name has that name. -/
theorem label_of_blockNamed? {label : String} {blocks : List Block} {index : Nat}
    (named : blockNamed? label blocks = some index) :
    ∃ block : Block, blocks[index]? = some block ∧ block.label = label := by
  induction blocks generalizing index with
  | nil => simp [blockNamed?] at named
  | cons first others ih =>
    rw [blockNamed?] at named
    split at named
    next later found =>
      obtain rfl : later + 1 = index := by simpa using named
      obtain ⟨block, stands, same⟩ := ih found
      exact ⟨block, by simpa using stands, same⟩
    next =>
      split at named
      next same =>
        obtain rfl : 0 = index := by simpa using named
        exact ⟨first, rfl, same⟩
      next => simp at named

/-- A name is found where it was. -/
theorem blockNamed?_congr {label : String} {blocks others : List Block}
    (same : others.map Block.label = blocks.map Block.label) :
    blockNamed? label others = blockNamed? label blocks := by
  induction blocks generalizing others with
  | nil => rw [List.map_eq_nil_iff.1 same]
  | cons block blocks ih =>
    obtain ⟨other, more, rfl, named, later⟩ := List.map_eq_cons_iff.1 same
    rw [blockNamed?, blockNamed?, ih later, named]

/-- The successors of blocks depend on the names of the blocks and on those that they give. -/
theorem successorTable_congr {blocks others : List Block}
    (same : others.map (fun block => (block.label, block.next)) =
      blocks.map fun block => (block.label, block.next)) :
    successorTable others = successorTable blocks := by
  have labels : others.map Block.label = blocks.map Block.label := by
    simpa [List.map_map, Function.comp_def] using congrArg (List.map Prod.fst) same
  rw [successorTable, successorTable]
  simp only [blockNamed?_congr labels]
  refine mapM_congr_of_map_eq (fun block other views => ?_) same
  obtain ⟨label, next⟩ := Prod.mk.inj views
  rw [label, next]

/-- A name that a block has is found. -/
theorem exists_blockNamed? {blocks : List Block} {block : Block} (member : block ∈ blocks) :
    ∃ index, blockNamed? block.label blocks = some index := by
  induction blocks with
  | nil => simp at member
  | cons first others ih =>
    rw [blockNamed?]
    cases found : blockNamed? block.label others with
    | some index => exact ⟨index + 1, rfl⟩
    | none =>
      rcases List.mem_cons.1 member with rfl | later
      · exact ⟨0, by simp⟩
      · obtain ⟨index, known⟩ := ih later
        rw [found] at known
        cases known

/-- Blocks of distinct names are told apart by them. -/
theorem eq_of_label_eq {blocks : List Block} (nodup : (blocks.map Block.label).Nodup)
    {first second : Nat} {one other : Block} (found : blocks[first]? = some one)
    (foundOther : blocks[second]? = some other) (same : one.label = other.label) :
    first = second := by
  have label : (blocks.map Block.label)[first]? = some one.label := by simp [found]
  have labelOther : (blocks.map Block.label)[second]? = some one.label := by
    simp [foundOther, same]
  have inside : first < (blocks.map Block.label).length :=
    (List.getElem?_eq_some_iff.1 label).1
  exact (List.getElem?_inj inside nodup).1 (label.trans labelOther.symm)

/-- Among distinct names, the block found under a name is the one that has it. -/
theorem blockNamed?_eq_some_iff {blocks : List Block} (nodup : (blocks.map Block.label).Nodup)
    (label : String) (index : Nat) :
    blockNamed? label blocks = some index ↔
      ∃ block : Block, blocks[index]? = some block ∧ block.label = label := by
  constructor
  · exact label_of_blockNamed?
  · rintro ⟨block, stands, rfl⟩
    obtain ⟨found, named⟩ := exists_blockNamed? (List.mem_of_getElem? stands)
    obtain ⟨other, standsOther, same⟩ := label_of_blockNamed? named
    rw [named, eq_of_label_eq nodup stands standsOther same.symm]

/-- Successors are resolved when every name is found, and in no other way. -/
theorem successorTable_eq_ok_iff (blocks : List Block) (successors : List (List Nat)) :
    successorTable blocks = .ok successors ↔
      List.Forall₂ (fun block targets =>
        List.Forall₂ (fun label target => blockNamed? label blocks = some target)
          block.next targets) blocks successors := by
  unfold successorTable
  rw [mapM_eq_ok_iff]
  constructor
  · refine fun along => along.imp fun block targets found => ?_
    refine ((mapM_eq_ok_iff _ _ _).1 found).imp fun label target named => ?_
    cases index : blockNamed? label blocks with
    | none =>
      rw [index] at named
      cases named
    | some other =>
      rw [index] at named
      exact congrArg some (Except.ok.inj named)
  · refine fun along => along.imp fun block targets found => (mapM_eq_ok_iff _ _ _).2 ?_
    exact found.imp fun label target named => by rw [named]

/-- The successors of a block are those found under the names that it gives. -/
theorem mem_successors_iff {blocks : List Block} {successors : List (List Nat)}
    (table : successorTable blocks = .ok successors) {index : Nat} {block : Block}
    (found : blocks[index]? = some block) (target : Nat) :
    target ∈ (successors[index]?).getD [] ↔
      ∃ label ∈ block.next, blockNamed? label blocks = some target := by
  have along := (successorTable_eq_ok_iff blocks successors).1 table
  obtain ⟨inside, rfl⟩ := List.getElem?_eq_some_iff.1 found
  have insideToo : index < successors.length := by rwa [← along.length_eq]
  have here := along.get inside insideToo
  simp only [List.get_eq_getElem] at here
  rw [List.getElem?_eq_getElem insideToo, Option.getD_some]
  generalize blocks[index].next = labels at here ⊢
  generalize successors[index] = targets at here ⊢
  induction here with
  | nil => simp
  | @cons label other labels targets first _ ih =>
    refine List.mem_cons.trans ((or_congr_right ih).trans ?_)
    constructor
    · rintro (rfl | ⟨later, member, named⟩)
      · exact ⟨label, List.mem_cons_self, first⟩
      · exact ⟨later, List.mem_cons_of_mem _ member, named⟩
    · rintro ⟨later, member, named⟩
      rcases List.mem_cons.1 member with rfl | behind
      · rw [first] at named
        exact .inl (by simpa using named.symm)
      · exact .inr ⟨later, behind, named⟩

/-- There are as many lists of successors as blocks. -/
theorem length_successors {blocks : List Block} {successors : List (List Nat)}
    (table : successorTable blocks = .ok successors) : successors.length = blocks.length :=
  ((successorTable_eq_ok_iff blocks successors).1 table).length_eq.symm

/-- Successors are blocks. -/
theorem lt_of_mem_successors {blocks : List Block} {successors : List (List Nat)}
    (table : successorTable blocks = .ok successors) {index target : Nat}
    (member : target ∈ (successors[index]?).getD []) : target < blocks.length := by
  by_cases inside : index < blocks.length
  · obtain ⟨label, -, named⟩ :=
      (mem_successors_iff table (List.getElem?_eq_getElem inside) target).1 member
    obtain ⟨block, found, -⟩ := label_of_blockNamed? named
    exact (List.getElem?_eq_some_iff.1 found).1
  · rw [← length_successors table] at inside
    rw [List.getElem?_eq_none (by omega)] at member
    simp at member

/-- Only the last instruction of a block can be a terminator. -/
theorem Block.EndsBefore.eq_last {block : Block} {behind? : Option Block}
    (ends : block.EndsBefore behind?) {index : Nat} {instr : Instruction}
    (found : block.instrs[index]? = some instr) (leaves : instr.isTerminator = true) :
    index + 1 = block.instrs.length ∧ block.terminator? = some instr := by
  obtain ⟨inside, rfl⟩ := List.getElem?_eq_some_iff.1 found
  have last : index + 1 = block.instrs.length := by
    by_contra early
    have within : index < block.instrs.dropLast.length := by
      rw [List.length_dropLast]
      omega
    have same : block.instrs.dropLast[index] = block.instrs[index] := List.getElem_dropLast within
    have stays := ends.straight _ (List.getElem_mem within)
    rw [same, leaves] at stays
    cases stays
  refine ⟨last, ?_⟩
  have final : block.instrs.getLast? = some block.instrs[index] := by
    rw [List.getLast?_eq_getElem?, ← last, Nat.add_sub_cancel, found]
  simp [terminator?, final, Option.filter, leaves]

/-- A block whose last instruction is no terminator has none. -/
theorem Block.terminator?_eq_none {block : Block} {index : Nat} {instr : Instruction}
    (found : block.instrs[index]? = some instr) (last : index + 1 = block.instrs.length)
    (stays : instr.isTerminator = false) : block.terminator? = none := by
  have final : block.instrs.getLast? = some instr := by
    rw [List.getLast?_eq_getElem?, ← last, Nat.add_sub_cancel, found]
  simp [terminator?, final, Option.filter, stays]

/-- The terminator of a block is its last instruction. -/
theorem Block.of_terminator? {block : Block} {terminator : Instruction}
    (found : block.terminator? = some terminator) :
    block.instrs.getLast? = some terminator ∧ terminator.isTerminator = true := by
  rwa [terminator?, Option.filter_eq_some_iff] at found

/-- The names that a laid out block gives are names of blocks. -/
theorem Laid.exists_block_of_next {blocks : List Block} (laid : Laid blocks) {index : Nat}
    {block : Block} (found : blocks[index]? = some block) {label : String}
    (member : label ∈ block.next) : ∃ target ∈ blocks, target.label = label := by
  rw [(laid.ends index block found).next_eq, Block.exits] at member
  split at member
  next terminator ends =>
    have last := List.mem_of_getLast? (Block.of_terminator? ends).1
    obtain ⟨target, among, same, -⟩ :=
      laid.targets block (List.mem_of_getElem? found) terminator last label member
    exact ⟨target, among, same⟩
  next =>
    obtain ⟨target, behind, same⟩ : ∃ target : Block, blocks[index + 1]? = some target ∧
        target.label = label := by simpa using member
    exact ⟨target, List.mem_of_getElem? behind, same⟩

/-- The successors of laid out blocks are all found. -/
theorem Laid.exists_successorTable {blocks : List Block} (laid : Laid blocks) :
    ∃ successors, successorTable blocks = .ok successors := by
  refine exists_mapM_eq_ok _ _ fun block member => exists_mapM_eq_ok _ _ fun label among => ?_
  obtain ⟨index, found⟩ := List.getElem?_of_mem member
  obtain ⟨target, stands, rfl⟩ := laid.exists_block_of_next found among
  obtain ⟨number, named⟩ := exists_blockNamed? stands
  exact ⟨number, by rw [named]⟩

/-- Control leaves a block at its terminator for the blocks at the labels of a jump. -/
theorem Laid.mem_successors_terminator {blocks : List Block} (laid : Laid blocks)
    {successors : List (List Nat)} (table : successorTable blocks = .ok successors) {index : Nat}
    {block : Block} (found : blocks[index]? = some block) {terminator : Instruction}
    (ends : block.terminator? = some terminator) (target : Nat) :
    target ∈ (successors[index]?).getD [] ↔ ∃ label ∈ terminator.jumpTargets,
      ∃ other : Block, blocks[target]? = some other ∧ other.label = label := by
  rw [mem_successors_iff table found, (laid.ends index block found).next_eq, Block.exits, ends]
  simp only [blockNamed?_eq_some_iff laid.labels_nodup]

/-- Without a terminator, control leaves a block for the block behind. -/
theorem Laid.mem_successors_onward {blocks : List Block} (laid : Laid blocks)
    {successors : List (List Nat)} (table : successorTable blocks = .ok successors) {index : Nat}
    {block : Block} (found : blocks[index]? = some block) (goesOn : block.terminator? = none)
    (target : Nat) :
    target ∈ (successors[index]?).getD [] ↔ target = index + 1 ∧ target < blocks.length := by
  rw [mem_successors_iff table found, (laid.ends index block found).next_eq, Block.exits, goesOn]
  simp only [blockNamed?_eq_some_iff laid.labels_nodup]
  constructor
  · rintro ⟨label, member, other, stands, same⟩
    obtain ⟨behind, next, named⟩ : ∃ behind : Block, blocks[index + 1]? = some behind ∧
        behind.label = label := by simpa using member
    have equal := eq_of_label_eq laid.labels_nodup stands next (same.trans named.symm)
    exact ⟨equal, (List.getElem?_eq_some_iff.1 stands).1⟩
  · rintro ⟨rfl, inside⟩
    have stands := List.getElem?_eq_getElem inside
    exact ⟨blocks[index + 1].label, by simp [stands], _, stands, rfl⟩

/-- A label that a laid out block jumps to is declared where the block that has it starts. -/
theorem Laid.mem_declarations_iff {blocks : List Block} (laid : Laid blocks) {block : Block}
    (member : block ∈ blocks) {instr : Instruction} (within : instr ∈ block.instrs)
    {label : String} (jumps : label ∈ instr.jumpTargets) (place : Nat) :
    place ∈ declarations label (blocks.flatMap Block.code) ↔
      ∃ (target : Nat) (other : Block), blocks[target]? = some other ∧ other.label = label ∧
        place = startOf blocks target := by
  rw [mem_declarations_flatMap_iff]
  constructor
  · rintro ⟨target, other, found, -, same, rfl⟩
    exact ⟨target, other, found, same, rfl⟩
  · rintro ⟨target, other, found, same, rfl⟩
    obtain ⟨real, among, named, visible⟩ := laid.targets block member instr within label jumps
    obtain ⟨index, stands⟩ := List.getElem?_of_mem among
    have equal := eq_of_label_eq laid.labels_nodup found stands (same.trans named.symm)
    rw [equal, stands, Option.some.injEq] at found
    subst equal found
    exact ⟨target, real, stands, visible, same, rfl⟩

end Midend
