import Midend.DeadStore.Passes
import Midend.Proofs.DeadStore.Simulation

/-!
# Elimination preserves behaviour

A pass leaves out instructions that are idle in the body and keeps blocks laid out, so that the next
pass can be made. Every program that elimination yields behaves like the one it started from.
-/

namespace Midend

open Lang Execution

/-- The instructions of a block, numbered from `start` on, without the given stores. -/
def withoutStores (stores : List (Nat × Nat)) (index start : Nat) (instrs : List Instruction) :
    List Instruction :=
  ((instrs.zipIdx start).filter fun (_, number) => !stores.contains (index, number)).map Prod.fst

/-- An instruction at the front stays in front, unless it is left out. -/
theorem withoutStores_cons (stores : List (Nat × Nat)) (index start : Nat) (instr : Instruction)
    (instrs : List Instruction) :
    withoutStores stores index start (instr :: instrs) =
      if (index, start) ∈ stores then withoutStores stores index (start + 1) instrs
      else instr :: withoutStores stores index (start + 1) instrs := by
  by_cases member : (index, start) ∈ stores <;> simp [withoutStores, member]

/-- What is left are some of the instructions, in order. -/
theorem withoutStores_sublist (stores : List (Nat × Nat)) (index start : Nat)
    (instrs : List Instruction) : (withoutStores stores index start instrs).Sublist instrs := by
  induction instrs generalizing start with
  | nil => exact .slnil
  | cons instr instrs ih =>
    rw [withoutStores_cons]
    split
    · exact (ih (start + 1)).cons instr
    · exact (ih (start + 1)).cons_cons instr

/-- An instruction that is not left out is still the last one. -/
theorem getLast?_withoutStores (stores : List (Nat × Nat)) (index start : Nat)
    (instrs : List Instruction) {last : Instruction} (found : instrs.getLast? = some last)
    (stays : ∀ offset, instrs[offset]? = some last → (index, start + offset) ∉ stores) :
    (withoutStores stores index start instrs).getLast? = some last := by
  induction instrs generalizing start with
  | nil => simp at found
  | cons instr instrs ih =>
    rw [withoutStores_cons]
    cases instrs with
    | nil =>
      obtain rfl : instr = last := by simpa using found
      rw [if_neg (by simpa using stays 0 rfl)]
      rfl
    | cons second others =>
      rw [List.getLast?_cons_cons] at found
      have later := ih (start + 1) found fun offset stands => by
        simpa [Nat.add_assoc, Nat.add_comm 1] using stays (offset + 1) stands
      split
      · exact later
      · rw [List.getLast?_cons, later]
        rfl

/-- A store at a place may leave if it is listed, and otherwise stay. -/
def MayGo (stays leaves : Nat → Instruction → Prop) (stores : List (Nat × Nat))
    (store : Nat × Nat) (place : Nat) (instr : Instruction) : Prop :=
  if store ∈ stores then leaves place instr else stays place instr

section Pruned

variable {stays leaves : Nat → Instruction → Prop}

/-- Instructions are pruned when those left out of them may leave and the others stay. -/
theorem pruned_withoutStores (stores : List (Nat × Nat)) (index start place : Nat)
    (instrs : List Instruction) (mayGo : ∀ offset instr, instrs[offset]? = some instr →
      MayGo stays leaves stores (index, start + offset) (place + offset) instr) :
    Pruned stays leaves place (instrs.map Entry.instr)
      ((withoutStores stores index start instrs).map Entry.instr) := by
  induction instrs generalizing start place with
  | nil => exact .nil
  | cons instr instrs ih =>
    have first : MayGo stays leaves stores (index, start) place instr := mayGo 0 instr rfl
    have others := ih (start + 1) (place + 1) fun offset other stands => by
      have later := mayGo (offset + 1) other stands
      rwa [Nat.add_comm offset, ← Nat.add_assoc, ← Nat.add_assoc] at later
    unfold MayGo at first
    rw [withoutStores_cons]
    split
    next member => exact .drop (by rwa [if_pos member] at first) others
    next stays => exact .keep (by rwa [if_neg stays] at first) others

/-- A block is pruned when the instructions left out of it may leave and the others stay. -/
theorem Block.pruned_withoutStores (block : Block) (stores : List (Nat × Nat)) (index place : Nat)
    (mayGo : ∀ offset instr, block.instrs[offset]? = some instr →
      MayGo stays leaves stores (index, offset) (place + (block.width + offset)) instr) :
    Pruned stays leaves place block.code
      (block.replaceInstrs (withoutStores stores index 0 block.instrs)).code := by
  have others : Pruned stays leaves (place + block.width) (block.instrs.map Entry.instr) _ :=
    Midend.pruned_withoutStores stores index 0 _ block.instrs fun offset instr found => by
      rw [Nat.zero_add, Nat.add_assoc]
      exact mayGo offset instr found
  unfold code
  unfold width at others
  cases invented : block.synthetic with
  | true =>
    simp only [invented, if_true] at others
    simpa [replaceInstrs, invented] using others
  | false =>
    simp only [invented, Bool.false_eq_true, if_false] at others
    simpa [replaceInstrs, invented] using Pruned.label others

/-- Leaving out stores changes the instructions of each block alone. -/
theorem getElem?_removeStores (blocks : List Block) (stores : List (Nat × Nat)) (index : Nat) :
    (removeStores blocks stores)[index]? = blocks[index]?.map fun block =>
      block.replaceInstrs (withoutStores stores index 0 block.instrs) := by
  rw [removeStores, List.getElem?_map, List.getElem?_zipIdx, Option.map_map, Nat.zero_add]
  rfl

/-- A body is pruned when the instructions left out of its blocks, numbered from `start` on, may
leave and the others stay. -/
theorem pruned_zipIdx (blocks : List Block) (stores : List (Nat × Nat)) (start place : Nat)
    (mayGo : ∀ index (block : Block) offset instr, blocks[index]? = some block →
      block.instrs[offset]? = some instr → MayGo stays leaves stores (start + index, offset)
        (place + (startOf blocks index + (block.width + offset))) instr) :
    Pruned stays leaves place (blocks.flatMap Block.code)
      (((blocks.zipIdx start).map fun (block, index) =>
        block.replaceInstrs (withoutStores stores index 0 block.instrs)).flatMap Block.code) := by
  induction blocks generalizing start place with
  | nil => exact .nil
  | cons block blocks ih =>
    have first : Pruned stays leaves place block.code
        (block.replaceInstrs (withoutStores stores start 0 block.instrs)).code := by
      refine block.pruned_withoutStores stores start place fun offset instr within => ?_
      have here := mayGo 0 block offset instr rfl within
      rwa [startOf, offsetOf_zero, Nat.zero_add] at here
    have others := ih (start + 1) (place + block.code.length)
      fun index other offset instr found within => by
        have later := mayGo (index + 1) other offset instr (by simpa using found) within
        rwa [startOf, offsetOf_cons_succ, Nat.add_assoc block.code.length, ← Nat.add_assoc place,
          Nat.add_comm index, ← Nat.add_assoc start] at later
    rw [List.zipIdx_cons, List.map_cons, List.flatMap_cons, List.flatMap_cons]
    exact first.append others

end Pruned

/-- A body is thinned when the stores left out of its blocks are idle. -/
theorem thinned_removeStores {idle : Nat → Instruction → Prop} (blocks : List Block)
    (stores : List (Nat × Nat))
    (areIdle : ∀ index (block : Block) offset instr, blocks[index]? = some block →
      block.instrs[offset]? = some instr → (index, offset) ∈ stores →
      idle (startOf blocks index + (block.width + offset)) instr) :
    Thinned idle 0 (blocks.flatMap Block.code)
      ((removeStores blocks stores).flatMap Block.code) := by
  refine pruned_zipIdx blocks stores 0 0 fun index block offset instr found within => ?_
  rw [MayGo, Nat.zero_add, Nat.zero_add]
  split
  next member => exact areIdle index block offset instr found within member
  next => trivial

/-- Leaving out its dead stores thins a laid out body. -/
theorem Laid.thinned {blocks : List Block} (laid : Laid blocks) {dead : List (Nat × Nat)}
    (computed : deadStores blocks = .ok dead) :
    Thinned (IsIdle (blocks.flatMap Block.code)) 0 (blocks.flatMap Block.code)
      ((removeStores blocks dead).flatMap Block.code) := by
  refine thinned_removeStores blocks dead fun index block offset instr found within member => ?_
  exact laid.isIdle_of_mem computed found within member

/-- The terminator of a block is left where it is. -/
theorem Laid.terminator?_withoutStores {blocks : List Block} (laid : Laid blocks)
    {dead : List (Nat × Nat)} (computed : deadStores blocks = .ok dead) {index : Nat}
    {block : Block} (found : blocks[index]? = some block) :
    (block.replaceInstrs (withoutStores dead index 0 block.instrs)).terminator? =
      block.terminator? := by
  cases ends : block.terminator? with
  | some terminator =>
    obtain ⟨last, leaves⟩ := Block.of_terminator? ends
    have kept := getLast?_withoutStores dead index 0 block.instrs last
      fun offset within member => by
        rw [Nat.zero_add] at member
        have pure := (laid.isIdle_of_mem computed found within member).1
        rw [isTerminator_of_pure pure] at leaves
        cases leaves
    simp [Block.terminator?, Block.replaceInstrs, kept, Option.filter, leaves]
  | none =>
    rw [Block.terminator?, Option.filter_eq_none_iff]
    intro last isLast leaves
    have member := (withoutStores_sublist dead index 0 block.instrs).subset
      (List.mem_of_getLast? isLast)
    obtain ⟨offset, within⟩ := List.getElem?_of_mem member
    have isEnd := ((laid.ends index block found).eq_last within leaves).2
    rw [ends] at isEnd
    cases isEnd

/-- Without their dead stores, blocks are still laid out. -/
theorem Laid.removeStores {blocks : List Block} (laid : Laid blocks) {dead : List (Nat × Nat)}
    (computed : deadStores blocks = .ok dead) : Laid (removeStores blocks dead) := by
  have labels : (Midend.removeStores blocks dead).map Block.label = blocks.map Block.label := by
    refine List.ext_getElem? fun index => ?_
    rw [List.getElem?_map, getElem?_removeStores, List.getElem?_map, Option.map_map]
    rfl
  constructor
  · intro index block found
    rw [getElem?_removeStores, Option.map_eq_some_iff] at found
    obtain ⟨old, was, rfl⟩ := found
    have ends := laid.ends index old was
    constructor
    · intro instr member
      have front := (withoutStores_sublist dead index 0 old.instrs).reverse.tail
      rw [List.tail_reverse, List.tail_reverse, List.reverse_sublist] at front
      exact ends.straight instr (front.subset member)
    · rw [Block.exits, laid.terminator?_withoutStores computed was, getElem?_removeStores,
        Option.map_map]
      exact ends.next_eq
  · rw [labels]
    exact laid.labels_nodup
  · intro block member instr within label jumps
    obtain ⟨index, found⟩ := List.getElem?_of_mem member
    rw [getElem?_removeStores, Option.map_eq_some_iff] at found
    obtain ⟨old, was, rfl⟩ := found
    obtain ⟨target, among, same, visible⟩ := laid.targets old (List.mem_of_getElem? was) instr
      ((withoutStores_sublist dead index 0 old.instrs).subset within) label jumps
    obtain ⟨number, stands⟩ := List.getElem?_of_mem among
    have now := getElem?_removeStores blocks dead number
    rw [stands, Option.map_some] at now
    exact ⟨_, List.mem_of_getElem? now, same, visible⟩

/-- The dead stores of laid out blocks are found. -/
theorem Laid.exists_deadStores {blocks : List Block} (laid : Laid blocks) :
    ∃ dead, deadStores blocks = .ok dead := by
  obtain ⟨successors, table⟩ := laid.exists_successorTable
  exact ⟨_, deadStores_of_table table⟩

/-- Passes over laid out blocks succeed, and each leaves a body that behaves like the first. -/
theorem Laid.exists_passes {blocks : List Block} (laid : Laid blocks) (allowed : Nat) :
    ∃ passes, eliminationPasses allowed blocks = .ok passes ∧ passes ≠ [] ∧
      ∀ pass ∈ passes, Alike (blocks.flatMap Block.code) (pass.flatMap Block.code) := by
  induction allowed generalizing blocks with
  | zero =>
    obtain ⟨dead, computed⟩ := laid.exists_deadStores
    refine ⟨[blocks], by rw [eliminationPasses, computed]; rfl, by simp, fun pass member => ?_⟩
    rw [List.mem_singleton.1 member]
    exact .refl _
  | succ allowed ih =>
    obtain ⟨dead, computed⟩ := laid.exists_deadStores
    by_cases finished : dead.isEmpty = true
    · refine ⟨[blocks], ?_, by simp, fun pass member => ?_⟩
      · rw [eliminationPasses, computed]
        simp [bind, Except.bind, finished, pure, Except.pure]
      · rw [List.mem_singleton.1 member]
        exact .refl _
    · obtain ⟨passes, succeeded, -, alike⟩ := ih (laid.removeStores computed)
      refine ⟨blocks :: passes, ?_, by simp, fun pass member => ?_⟩
      · rw [eliminationPasses, computed]
        simp [bind, Except.bind, finished, succeeded, pure, Except.pure]
      · rcases List.mem_cons.1 member with rfl | later
        · exact .refl _
        · exact (alike_of_thinned (laid.thinned computed)).trans (alike pass later)

/-- A function with the header of another whose body behaves like the other's. -/
structure Lang.Function.BehavesLike (after before : Function) : Prop where
  name_eq : after.name = before.name
  params_eq : after.params = before.params
  returns_eq : after.returns = before.returns
  pos_eq : after.pos = before.pos
  alike : Alike before.body after.body

/-- A function behaves like the one from whose passes it is taken. -/
theorem Lang.Function.behavesLike_withBlocks {function : Function} {blocks : List Block}
    (alike : Alike function.body (blocks.flatMap Block.code)) :
    (function.withBlocks blocks).BehavesLike function :=
  ⟨rfl, rfl, rfl, rfl, alike⟩

/-- Passes of a function that all behave like it. -/
structure FunctionPasses.Faithful (elimination : FunctionPasses) (function : Function) : Prop where
  function_eq : elimination.function = function
  nonempty : elimination.passes ≠ []
  alike : ∀ pass ∈ elimination.passes, Alike function.body (pass.flatMap Block.code)

/-- The last of the passes is one of them. -/
theorem lastPass_mem {passes : List (List Block)} (nonempty : passes ≠ []) :
    lastPass passes ∈ passes := by
  rw [lastPass, List.getLast?_eq_some_getLast nonempty]
  exact List.getLast_mem nonempty

/-- After any number of passes a function behaves as before. -/
theorem FunctionPasses.Faithful.after {elimination : FunctionPasses} {function : Function}
    (faithful : elimination.Faithful function) (pass : Nat) :
    (elimination.after pass).BehavesLike function := by
  rw [FunctionPasses.after, faithful.function_eq]
  refine Function.behavesLike_withBlocks (faithful.alike _ ?_)
  cases found : elimination.passes[pass]? with
  | some blocks => exact List.mem_of_getElem? found
  | none => exact lastPass_mem faithful.nonempty

/-- The passes over a well-labelled function succeed and behave like it. -/
theorem Lang.Function.WellLabelled.exists_passes {function : Function}
    (labelled : function.WellLabelled) (options : Options) :
    ∃ passes, eliminateDeadStores function.blocks options = .ok passes ∧
      FunctionPasses.Faithful { function, passes } function := by
  obtain ⟨passes, succeeded, nonempty, alike⟩ := labelled.laid.exists_passes
    (options.maxPasses.elim (instrCount function.blocks) (min (instrCount function.blocks)))
  rw [flatMap_code_blocks] at alike
  exact ⟨passes, succeeded, rfl, nonempty, alike⟩

/-- Dead stores of well-labelled functions can be eliminated under any options. After every pass,
and at the end, each function behaves as before. -/
theorem eliminateDeadStores_behavesLike (program : Program) (options : Options)
    (labelled : ∀ function ∈ program.functions, function.WellLabelled) :
    ∃ elimination, program.eliminateDeadStores options = .ok elimination ∧
      ∀ pass ∈ elimination.converged :: elimination.passes,
        List.Forall₂ (fun before after => after.BehavesLike before) program.functions
          pass.functions := by
  set compute : Function → Except Fault FunctionPasses := fun function => do
    return { function, passes := ← eliminateDeadStores function.blocks options } with compute_def
  have faithful : ∀ function ∈ program.functions,
      ∃ one, compute function = .ok one ∧ one.Faithful function := by
    intro function member
    obtain ⟨passes, succeeded, good⟩ := (labelled function member).exists_passes options
    exact ⟨_, by rw [compute_def]; simp only [succeeded]; rfl, good⟩
  obtain ⟨results, succeeded⟩ := exists_mapM_eq_ok compute program.functions
    fun function member => (faithful function member).imp fun _ good => good.1
  have along : List.Forall₂ (fun function one => one.Faithful function) program.functions
      results := by
    have computed := (mapM_eq_ok_iff compute program.functions results).1 succeeded
    refine ((List.forall₂_and_left _ _).2 ⟨faithful, computed⟩).imp ?_
    rintro function one ⟨⟨other, same, good⟩, isOne⟩
    obtain rfl := Except.ok.inj (same.symm.trans isOne)
    exact good
  refine ⟨.ofFunctions results, ?_, fun pass member => ?_⟩
  · unfold Program.eliminateDeadStores
    rw [← compute_def, succeeded]
    rfl
  · rcases List.mem_cons.1 member with rfl | among
    · rw [Elimination.ofFunctions, List.forall₂_map_right_iff]
      refine along.imp fun function one good => ?_
      rw [good.function_eq]
      exact Function.behavesLike_withBlocks (good.alike _ (lastPass_mem good.nonempty))
    · obtain ⟨number, -, rfl⟩ := List.mem_map.1 among
      rw [List.forall₂_map_right_iff]
      exact along.imp fun function one good => good.after number

/-- Under the interpretation that adds operands up, control goes on from entry to entry. -/
theorem adding_isSequential : Interpretation.adding.IsSequential where
  compute op ty funcs labels operands hidden uncalled := if_neg uncalled
  jump op jumps funcs labels operands hidden := by
    rcases jumps with rfl | rfl <;> cases labels <;> simp [Interpretation.adding]
  ret funcs labels operands hidden := rfl
  onward op notBr notJmp notRet funcs labels operands hidden := by
    cases op <;> simp_all [Interpretation.adding]

/-- Eliminating the dead store of the loop to the start leaves what its runs show, also under the
interpretation that adds operands up. -/
theorem eliminateDeadStores_behavesLike_loopToStart :
    ∃ elimination, ({ functions := [loopToStart] } : Program).eliminateDeadStores {} =
        .ok elimination ∧
      ∀ pass ∈ elimination.converged :: elimination.passes,
        List.Forall₂ (fun before after => after.BehavesLike before ∧
          Imitates .adding after.body before.body ∧ Imitates .adding before.body after.body)
          [loopToStart] pass.functions := by
  obtain ⟨elimination, succeeded, alike⟩ :=
    eliminateDeadStores_behavesLike { functions := [loopToStart] } {} fun function member => by
      rw [List.mem_singleton.1 member]
      exact loopToStart_wellLabelled
  refine ⟨elimination, succeeded, fun pass member => (alike pass member).imp ?_⟩
  exact fun before after same => ⟨same, same.alike _ _ _ adding_isSequential⟩

end Midend
