import Mathlib.Algebra.Order.BigOperators.Group.List
import Midend.Proofs.DeadStore.Exactness
import Midend.Proofs.DeadStore.Passes

/-!
# The chain of passes

Each pass leaves out the dead stores of the blocks that it is given and nothing else. The names of
the blocks stay as they are, so that the next pass can be made, and every pass leaves out at least
one instruction, so that the passes come to an end. Allowing fewer of them cuts the chain short.
-/

namespace Midend

open Lang

/-- Instructions without those at some offsets: the others, in order. -/
def KeepsOthers (gone : Nat → Prop) (before after : List Instruction) : Prop :=
  ∃ kept : List Nat, kept.Pairwise (· < ·) ∧
    (∀ offset, offset ∈ kept ↔ offset < before.length ∧ ¬gone offset) ∧
    List.Forall₂ (fun offset instr => before[offset]? = some instr) kept after

/-- Blocks without their dead stores, of which there are some: each block has its label and its
successors, and its other instructions in order, but no remarks. -/
def LosesDeadStores (before after : List Block) : Prop :=
  ∃ dead, deadStores before = .ok dead ∧ dead ≠ [] ∧ instrCount after < instrCount before ∧
    after.length = before.length ∧
    ∀ (index : Nat) (block other : Block), before[index]? = some block →
      after[index]? = some other →
      other = { block with instrs := other.instrs, notes := [] } ∧
        KeepsOthers (fun offset => (index, offset) ∈ dead) block.instrs other.instrs

/-- Blocks are left without their dead stores, of which there are some. -/
def PassesTo (before after : List Block) : Prop :=
  ∃ dead, deadStores before = .ok dead ∧ dead ≠ [] ∧ after = removeStores before dead

/-- The passes over some blocks, of which at most so many are made. -/
inductive Eliminates : (allowed : Nat) → List Block → List (List Block) → Prop
  | exhausted {blocks : List Block} {dead : List (Nat × Nat)}
    (computed : deadStores blocks = .ok dead) : Eliminates 0 blocks [blocks]
  | settled {allowed : Nat} {blocks : List Block} (computed : deadStores blocks = .ok []) :
    Eliminates (allowed + 1) blocks [blocks]
  | pass {allowed : Nat} {blocks next : List Block} {passes : List (List Block)}
    (first : PassesTo blocks next) (others : Eliminates allowed next passes) :
    Eliminates (allowed + 1) blocks (blocks :: passes)

/-- What is left of the instructions of a block are those that are not left out. -/
theorem keepsOthers_withoutStores (stores : List (Nat × Nat)) (index : Nat)
    (instrs : List Instruction) :
    KeepsOthers (fun offset => (index, offset) ∈ stores) instrs
      (withoutStores stores index 0 instrs) := by
  let kept := instrs.zipIdx.filter fun item => !stores.contains (index, item.2)
  refine ⟨kept.map Prod.snd, ?_, fun offset => ?_, ?_⟩
  · rw [List.pairwise_map]
    exact (pairwise_zipIdx instrs).filter _
  · simp only [kept, List.mem_map, List.mem_filter, Prod.exists, List.mem_zipIdx_iff_getElem?]
    constructor
    · rintro ⟨instr, _, ⟨found, stays⟩, rfl⟩
      exact ⟨(List.getElem?_eq_some_iff.1 found).1, by simpa using stays⟩
    · rintro ⟨inside, stays⟩
      exact ⟨_, offset, ⟨List.getElem?_eq_getElem inside, by simpa using stays⟩, rfl⟩
  · rw [withoutStores, List.forall₂_map_left_iff, List.forall₂_map_right_iff, List.forall₂_same]
    rintro ⟨instr, offset⟩ member
    exact List.mem_zipIdx_iff_getElem?.1 (List.mem_of_mem_filter member)

/-- Fewer instructions are left of a block when one of them is left out. -/
theorem length_withoutStores_lt {stores : List (Nat × Nat)} {index offset : Nat} (start : Nat)
    {instrs : List Instruction} (inside : offset < instrs.length)
    (member : (index, start + offset) ∈ stores) :
    (withoutStores stores index start instrs).length < instrs.length := by
  induction instrs generalizing start offset with
  | nil => cases inside
  | cons instr instrs ih =>
    rw [withoutStores_cons]
    split
    · exact Nat.lt_succ_of_le (withoutStores_sublist stores index (start + 1) instrs).length_le
    next stays =>
      cases offset with
      | zero => exact absurd member stays
      | succ offset =>
        rw [Nat.add_succ, ← Nat.succ_add] at member
        exact Nat.succ_lt_succ (ih (start + 1) (Nat.lt_of_succ_lt_succ inside) member)

/-- Fewer instructions are left of blocks when one of them is left out. -/
theorem instrCount_removeStores_lt {blocks : List Block} {stores : List (Nat × Nat)}
    {index offset : Nat} {block : Block} (found : blocks[index]? = some block)
    (inside : offset < block.instrs.length) (member : (index, offset) ∈ stores) :
    instrCount (removeStores blocks stores) < instrCount blocks := by
  have counted : instrCount blocks =
      (blocks.zipIdx.map fun item => item.1.instrs.length).sum := by
    rw [instrCount, List.length_flatMap]
    conv_lhs => rw [← List.zipIdx_map_fst 0 blocks, List.map_map]
    rfl
  have left : instrCount (removeStores blocks stores) =
      (blocks.zipIdx.map fun item =>
        (withoutStores stores item.2 0 item.1.instrs).length).sum := by
    rw [instrCount, removeStores, List.length_flatMap, List.map_map]
    rfl
  rw [counted, left]
  refine List.sum_lt_sum _ _ (fun item _ => ?_) ⟨(block, index), ?_, ?_⟩
  · exact (withoutStores_sublist stores item.2 0 item.1.instrs).length_le
  · exact List.mem_zipIdx_iff_getElem?.2 found
  · exact length_withoutStores_lt 0 inside (by rwa [Nat.zero_add])

/-- The successors of blocks are found when dead stores are. -/
theorem exists_successorTable_of_deadStores {blocks : List Block} {dead : List (Nat × Nat)}
    (computed : deadStores blocks = .ok dead) :
    ∃ successors, successorTable blocks = .ok successors := by
  obtain ⟨successors, table, -⟩ := bind_eq_ok_iff.1 computed
  exact ⟨successors, table⟩

/-- A pass leaves out the dead stores and nothing else. -/
theorem PassesTo.losesDeadStores {before after : List Block} (passes : PassesTo before after) :
    LosesDeadStores before after := by
  obtain ⟨dead, computed, some, rfl⟩ := passes
  refine ⟨dead, computed, some, ?_, by simp [removeStores], ?_⟩
  · obtain ⟨⟨index, offset⟩, others, rfl⟩ := List.exists_cons_of_ne_nil some
    obtain ⟨successors, table⟩ := exists_successorTable_of_deadStores computed
    obtain ⟨-, block, instr, -, found, within, -⟩ :=
      (mem_deadStores_iff table computed index offset).1 List.mem_cons_self
    exact instrCount_removeStores_lt found (List.getElem?_eq_some_iff.1 within).1
      List.mem_cons_self
  · intro index block other found foundToo
    rw [getElem?_removeStores, found, Option.map_some, Option.some.injEq] at foundToo
    rw [← foundToo]
    exact ⟨rfl, keepsOthers_withoutStores dead index block.instrs⟩

/-- The successors of the blocks are found after a pass where they were before. -/
theorem successorTable_removeStores {blocks : List Block} {successors : List (List Nat)}
    (table : successorTable blocks = .ok successors) (stores : List (Nat × Nat)) :
    successorTable (removeStores blocks stores) = .ok successors := by
  have kept {α : Type} (view : Block → α)
      (same : ∀ block instrs, view (Block.replaceInstrs block instrs) = view block) :
      (removeStores blocks stores).map view = blocks.map view := by
    refine List.ext_getElem? fun index => ?_
    rw [List.getElem?_map, getElem?_removeStores, List.getElem?_map, Option.map_map]
    exact congrArg (Option.map · _) (funext fun block => same block _)
  rwa [successorTable_congr (kept (fun block => (block.label, block.next)) fun _ _ => rfl)]

/-- The passes made are those of a run. -/
theorem eliminationPasses_eq_ok_iff {allowed : Nat} {blocks : List Block}
    {passes : List (List Block)} :
    eliminationPasses allowed blocks = .ok passes ↔ Eliminates allowed blocks passes := by
  constructor
  · intro succeeded
    induction allowed generalizing blocks passes with
    | zero =>
      obtain ⟨dead, computed, made⟩ := bind_eq_ok_iff.1 succeeded
      cases made
      exact .exhausted computed
    | succ allowed ih =>
      obtain ⟨dead, computed, made⟩ := bind_eq_ok_iff.1 succeeded
      split at made
      next finished =>
        cases made
        rw [List.isEmpty_iff] at finished
        exact .settled (finished ▸ computed)
      next unfinished =>
        obtain ⟨others, more, rest⟩ := bind_eq_ok_iff.1 made
        cases rest
        rw [List.isEmpty_iff] at unfinished
        exact .pass ⟨dead, computed, unfinished, rfl⟩ (ih more)
  · intro eliminates
    induction eliminates with
    | exhausted computed => exact bind_eq_ok_iff.2 ⟨_, computed, rfl⟩
    | settled computed => exact bind_eq_ok_iff.2 ⟨_, computed, rfl⟩
    | pass first _ ih =>
      obtain ⟨dead, computed, some, rfl⟩ := first
      refine bind_eq_ok_iff.2 ⟨dead, computed, ?_⟩
      rw [if_neg (by rwa [List.isEmpty_iff])]
      exact bind_eq_ok_iff.2 ⟨_, ih, rfl⟩

namespace Eliminates

variable {allowed : Nat} {blocks : List Block} {passes : List (List Block)}

/-- The first of the passes is what was there before. -/
theorem head?_eq (eliminates : Eliminates allowed blocks passes) : passes.head? = some blocks := by
  cases eliminates <;> rfl

/-- There are passes, of which the last is the result. -/
theorem getLast?_eq (eliminates : Eliminates allowed blocks passes) :
    passes.getLast? = some (lastPass passes) := by
  have some : passes ≠ [] := by
    rintro rfl
    cases eliminates.head?_eq
  rw [lastPass, List.getLast?_eq_some_getLast some]
  rfl

/-- Another pass in front leaves the result. -/
theorem lastPass_cons (eliminates : Eliminates allowed blocks passes) (first : List Block) :
    lastPass (first :: passes) = lastPass passes := by
  rw [lastPass, List.getLast?_cons, eliminates.getLast?_eq]
  rfl

/-- Each of the passes leaves out the dead stores of the one before. -/
theorem isChain (eliminates : Eliminates allowed blocks passes) : passes.IsChain PassesTo := by
  induction eliminates with
  | exhausted => exact .singleton _
  | settled => exact .singleton _
  | pass first others ih =>
    obtain ⟨more, rfl⟩ := List.head?_eq_some_iff.1 others.head?_eq
    exact .cons_cons first ih

/-- No more passes are made than are allowed. -/
theorem length_le (eliminates : Eliminates allowed blocks passes) :
    passes.length ≤ allowed + 1 := by
  induction eliminates with
  | exhausted => exact Nat.le_refl 1
  | settled => exact Nat.succ_le_succ (Nat.zero_le _)
  | pass _ _ ih => exact Nat.succ_le_succ ih

/-- As many passes as there are instructions leave no dead store. -/
theorem deadStores_lastPass (eliminates : Eliminates allowed blocks passes)
    (enough : instrCount blocks ≤ allowed) : deadStores (lastPass passes) = .ok [] := by
  induction eliminates with
  -- A further pass would leave out an instruction, and there is none.
  | @exhausted blocks dead computed =>
    by_cases finished : dead = []
    · exact finished ▸ computed
    · obtain ⟨-, -, -, fewer, -⟩ := PassesTo.losesDeadStores ⟨dead, computed, finished, rfl⟩
      exact absurd (Nat.lt_of_lt_of_le fewer enough) (Nat.not_lt_zero _)
  | settled computed => exact computed
  | @pass allowed blocks next passes first others ih =>
    obtain ⟨-, -, -, fewer, -⟩ := first.losesDeadStores
    rw [others.lastPass_cons]
    exact ih (Nat.le_of_lt_succ (Nat.lt_of_lt_of_le fewer enough))

/-- With fewer passes allowed the first ones are made. -/
theorem take (eliminates : Eliminates allowed blocks passes) {fewer : Nat}
    (within : fewer ≤ allowed) : Eliminates fewer blocks (passes.take (fewer + 1)) := by
  induction eliminates generalizing fewer with
  | exhausted computed =>
    obtain rfl := Nat.le_zero.1 within
    exact .exhausted computed
  | settled computed =>
    rw [List.take_of_length_le (Nat.succ_le_succ (Nat.zero_le fewer))]
    cases fewer with
    | zero => exact .exhausted computed
    | succ fewer => exact .settled computed
  | pass first _ ih =>
    rw [List.take_succ_cons]
    cases fewer with
    | zero =>
      obtain ⟨dead, computed, -⟩ := first
      exact .exhausted computed
    | succ fewer => exact .pass first (ih (Nat.le_of_succ_le_succ within))

end Eliminates

/-- Passes can be made over blocks whose successors are found. -/
theorem exists_eliminates {successors : List (List Nat)} (allowed : Nat) {blocks : List Block}
    (table : successorTable blocks = .ok successors) :
    ∃ passes, Eliminates allowed blocks passes := by
  induction allowed generalizing blocks with
  | zero => exact ⟨_, .exhausted (deadStores_of_table table)⟩
  | succ allowed ih =>
    obtain ⟨dead, computed⟩ : ∃ dead, deadStores blocks = .ok dead :=
      ⟨_, deadStores_of_table table⟩
    by_cases finished : dead = []
    · exact ⟨_, .settled (finished ▸ computed)⟩
    · obtain ⟨passes, others⟩ := ih (successorTable_removeStores table dead)
      exact ⟨_, .pass ⟨dead, computed, finished, rfl⟩ others⟩

section Elimination

variable {blocks : List Block} {options : Options} {passes : List (List Block)}

/-- The passes of an elimination are a run with as many passes as there are instructions, or as
many as are allowed if these are fewer. -/
theorem eliminates_of_eliminateDeadStores
    (succeeded : eliminateDeadStores blocks options = .ok passes) :
    Eliminates (options.maxPasses.elim (instrCount blocks) (min (instrCount blocks))) blocks
      passes :=
  eliminationPasses_eq_ok_iff.1 succeeded

/-- With any number of passes allowed, no dead store is left. -/
theorem deadStores_of_eliminateDeadStores (unlimited : options.maxPasses = none)
    (succeeded : eliminateDeadStores blocks options = .ok passes) :
    deadStores (lastPass passes) = .ok [] := by
  have eliminates := eliminates_of_eliminateDeadStores succeeded
  rw [unlimited] at eliminates
  exact eliminates.deadStores_lastPass (Nat.le_refl _)

/-- An elimination succeeds on blocks whose successors are found, and a limit on the passes cuts
them short. -/
theorem exists_eliminateDeadStores (options : Options)
    (resolved : ∃ successors, successorTable blocks = .ok successors) :
    ∃ passes uncapped, eliminateDeadStores blocks options = .ok passes ∧
      eliminateDeadStores blocks { options with maxPasses := none } = .ok uncapped ∧
      ∀ most, options.maxPasses = some most → passes = uncapped.take (most + 1) := by
  obtain ⟨successors, table⟩ := resolved
  obtain ⟨uncapped, whole⟩ := exists_eliminates (instrCount blocks) table
  cases limit : options.maxPasses with
  | none =>
    refine ⟨uncapped, uncapped, ?_, eliminationPasses_eq_ok_iff.2 whole, nofun⟩
    rw [eliminateDeadStores, limit]
    exact eliminationPasses_eq_ok_iff.2 whole
  | some most =>
    have capped := whole.take (Nat.min_le_left (instrCount blocks) most)
    refine ⟨uncapped.take (min (instrCount blocks) most + 1), uncapped, ?_,
      eliminationPasses_eq_ok_iff.2 whole, ?_⟩
    · rw [eliminateDeadStores, limit]
      exact eliminationPasses_eq_ok_iff.2 capped
    · intro other same
      obtain rfl := Option.some.inj same
      -- A limit above the number of instructions is not reached.
      rcases Nat.le_total (instrCount blocks) most with more | fewer
      · rw [Nat.min_eq_left more, List.take_of_length_le whole.length_le,
          List.take_of_length_le (Nat.le_trans whole.length_le (Nat.succ_le_succ more))]
      · rw [Nat.min_eq_right fewer]

end Elimination

/-- The passes are those of the elimination of a function. -/
structure FunctionPasses.Eliminate (one : FunctionPasses) (options : Options)
    (function : Function) : Prop where
  function_eq : one.function = function
  succeeded : eliminateDeadStores function.blocks options = .ok one.passes

/-- The elimination of a program is made of those of its functions. -/
theorem eliminateDeadStores_eq_ok_iff {program : Program} {options : Options}
    {elimination : Elimination} :
    program.eliminateDeadStores options = .ok elimination ↔
      ∃ functions : List FunctionPasses,
        List.Forall₂ (fun function one => one.Eliminate options function)
          program.functions functions ∧
        elimination = .ofFunctions functions := by
  rw [Program.eliminateDeadStores, bind_eq_ok_iff]
  refine exists_congr fun functions => ?_
  rw [mapM_eq_ok_iff]
  refine and_congr ?_ ⟨fun made => (Except.ok.inj made).symm, fun same => congrArg _ same.symm⟩
  have single (function : Function) (one : FunctionPasses) :
      (eliminateDeadStores function.blocks options >>= fun passes =>
        (return { function, passes } : Except Fault FunctionPasses)) = .ok one ↔
      one.Eliminate options function := by
    rw [bind_eq_ok_iff]
    constructor
    · rintro ⟨passes, succeeded, made⟩
      cases made
      exact ⟨rfl, succeeded⟩
    · rintro ⟨rfl, succeeded⟩
      exact ⟨_, succeeded, rfl⟩
  simp only [single]

end Midend
