import Midend.Proofs.Block.Names
import Midend.Proofs.DeadStore.Walk

/-!
# Dead stores are exact

When the names that blocks give are names of blocks, the walk through them ends, and what it leaves
dead are the dead stores, in the order in which they stand. Otherwise the first name that no block
has is a fault, also in a block that control does not reach.
-/

namespace Midend

open Lang

/-- Items are listed with growing numbers. -/
theorem pairwise_zipIdx {α : Type} (items : List α) :
    items.zipIdx.Pairwise fun one other => one.2 < other.2 := by
  have numbers : (items.zipIdx.map Prod.snd).Pairwise (· < ·) := by
    rw [List.zipIdx_map_snd]
    exact List.pairwise_lt_range'
  rwa [List.pairwise_map] at numbers

/-- The stores of a numbered block stand in it. -/
theorem block_of_mem_storesIn {index : Nat} {block : Block} {store : Store}
    (member : store ∈ storesIn index block) : store.block = index := by
  obtain ⟨⟨instr, offset⟩, -, made⟩ := List.mem_filterMap.1 member
  obtain ⟨name, -, rfl⟩ := Option.map_eq_some_iff.1 made
  rfl

/-- Stores are listed in the order in which they stand. -/
theorem pairwise_storesOf (blocks : List Block) :
    (storesOf blocks).Pairwise fun one other => Prod.Lex (· < ·) (· < ·) one.place other.place := by
  rw [storesOf, List.pairwise_flatMap]
  constructor
  · rintro ⟨block, index⟩ -
    refine List.Pairwise.filterMap _ ?_ (pairwise_zipIdx block.instrs)
    intro one other before store made storeToo madeToo
    obtain ⟨-, -, rfl⟩ := Option.map_eq_some_iff.1 made
    obtain ⟨-, -, rfl⟩ := Option.map_eq_some_iff.1 madeToo
    exact Prod.Lex.right index before
  · refine (pairwise_zipIdx blocks).imp fun before store member storeToo memberToo => ?_
    refine Prod.Lex.left _ _ ?_
    rwa [block_of_mem_storesIn member, block_of_mem_storesIn memberToo]

/-- A name is found when a block has it. -/
theorem exists_blockNamed?_iff (label : String) (blocks : List Block) :
    (∃ index, blockNamed? label blocks = some index) ↔ label ∈ blocks.map Block.label := by
  rw [List.mem_map]
  constructor
  · rintro ⟨index, named⟩
    obtain ⟨block, found, same⟩ := label_of_blockNamed? named
    exact ⟨block, List.mem_of_getElem? found, same⟩
  · rintro ⟨block, member, rfl⟩
    exact exists_blockNamed? member

/-- The first name that no block has is a fault. -/
theorem successorTable_eq_error {blocks before after : List Block} {block : Block}
    {earlier later : List String} {label : String} (parts : blocks = before ++ block :: after)
    (names : block.next = earlier ++ label :: later)
    (resolved : ∀ name ∈ before.flatMap Block.next ++ earlier, name ∈ blocks.map Block.label)
    (missing : label ∉ blocks.map Block.label) :
    successorTable blocks = .error (.unresolvedLabel block.label label) := by
  have unnamed : blockNamed? label blocks = none := by
    rw [Option.eq_none_iff_forall_ne_some]
    exact fun index named => missing ((exists_blockNamed?_iff label blocks).1 ⟨index, named⟩)
  unfold successorTable
  nth_rewrite 2 [parts]
  refine mapM_eq_error (fun other member => exists_mapM_eq_ok _ _ fun name among => ?_) ?_
  · have known := resolved name (List.mem_append_left _ (List.mem_flatMap_of_mem member among))
    obtain ⟨index, named⟩ := (exists_blockNamed?_iff name blocks).2 known
    exact ⟨index, by rw [named]⟩
  · rw [names]
    refine mapM_eq_error (fun name among => ?_) (by rw [unnamed])
    have known := resolved name (List.mem_append_right _ among)
    obtain ⟨index, named⟩ := (exists_blockNamed?_iff name blocks).2 known
    exact ⟨index, by rw [named]⟩

/-- When every name that a block gives is the name of a block, the walk through the blocks ends, and
it finds exactly the dead stores, each once and in order. Otherwise the first name that no block has
is a fault, whether control reaches the block that gives it or not. -/
theorem deadStores_exact (blocks : List Block) :
    ((∀ block ∈ blocks, ∀ label ∈ block.next, label ∈ blocks.map Block.label) →
      ∃ successors dead, successorTable blocks = .ok successors ∧
        (Walk.through blocks successors).pending = [] ∧ deadStores blocks = .ok dead ∧
        dead.Pairwise (Prod.Lex (· < ·) (· < ·)) ∧
        ∀ index offset, (index, offset) ∈ dead ↔ IsDeadStore blocks index offset) ∧
    ∀ (before after : List Block) (block : Block) (earlier later : List String) (label : String),
      blocks = before ++ block :: after → block.next = earlier ++ label :: later →
      (∀ name ∈ before.flatMap Block.next ++ earlier, name ∈ blocks.map Block.label) →
      label ∉ blocks.map Block.label →
      deadStores blocks = .error (.unresolvedLabel block.label label) := by
  constructor
  · intro resolved
    obtain ⟨successors, table⟩ := (exists_successorTable_iff blocks).2
      fun block member label named => List.mem_map.1 (resolved block member label named)
    have computed := deadStores_of_table table
    refine ⟨successors, _, table, ?_, computed, ?_, mem_deadStores_iff table computed⟩
    · by_cases empty : blocks = []
      · subst empty
        obtain rfl := Except.ok.inj table
        rfl
      · exact (Walk.through_ends table empty).1
    · rw [List.pairwise_map]
      exact (pairwise_storesOf blocks).filter _
  · intro before after block earlier later label parts names resolved missing
    rw [deadStores, successorTable_eq_error parts names resolved missing]
    rfl

/-- In the loop to the start, the variable that is never read has the only dead store. A name that
no block has is a fault in a block that control does not reach. -/
theorem deadStores_exact_loopToStart :
    (deadStores loopToStart.blocks = .ok [(1, 0)] ∧
      ∀ index offset, IsDeadStore loopToStart.blocks index offset ↔ (index, offset) = (1, 0)) ∧
    deadStores [{ label := "start" }, { label := "behind", next := ["start", "gone"] }] =
      .error (.unresolvedLabel "behind" "gone") := by
  constructor
  · obtain ⟨successors, dead, -, -, computed, -, exact⟩ :=
      (deadStores_exact loopToStart.blocks).1 (by decide +kernel)
    have found : deadStores loopToStart.blocks = .ok [(1, 0)] := by decide +kernel
    obtain rfl := Except.ok.inj (computed.symm.trans found)
    exact ⟨found, fun index offset => (exact index offset).symm.trans List.mem_singleton⟩
  · exact (deadStores_exact _).2 [{ label := "start" }] []
      { label := "behind", next := ["start", "gone"] } ["start"] [] "gone" rfl rfl
      (by decide) (by decide)

end Midend
