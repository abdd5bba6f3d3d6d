import Midend.Proofs.Block.Code
import Midend.Proofs.Execution
import Midend.Proofs.Numbering.Meaning
import Midend.Proofs.Numbering.Step
import Midend.Proofs.Traversal
import Mathlib.Data.List.Permutation

/-!
# Value numbering runs in lockstep

A function and what value numbering makes of it run in lockstep, however its operations are
interpreted, as long as numbered operations are functions of their operands. The two runs carry out
the same operations other than numbered ones, on the same operands.

What carries the proof is a pool in front of every entry that describes the variables there: the
empty pool at the start of a block, and behind an instruction the pool that the simplification of
the instruction leaves.
-/

namespace Midend

open Lang Execution

/-- Interpretations under which constants have the value of their literal and numbered operations
are functions of their operands, copies among them; under the commutative option the operands of
commutative operations may change places. -/
structure Execution.Interpretation.IsFunctional {V S : Type} (meaning : Interpretation V S)
    (options : Options) (value : Literal → V) (apply : ValueOp → List V → V) : Prop where
  constant : ∀ ty literal hidden, meaning.constant ty literal hidden = value literal
  compute : ∀ (op : ValueOp) (ty : Ty) (funcs labels : List String) (operands : List V)
    (hidden : S), op.treatment = .numbered →
    meaning.compute op ty funcs labels operands hidden = (apply op operands, hidden)
  copy : ∀ operand, apply .id [operand] = operand
  symmetric : options.commutative = true → ∀ op : ValueOp, op.isCommutative = true →
    ∀ left right, apply op [left, right] = apply op [right, left]

/-- Whether an operation is a value operation that is known by its operands. -/
def Execution.Event.isNumbered {V : Type} (event : Event V) : Bool :=
  match event.op with
  | .inl op => op.treatment == .numbered
  | .inr _ => false

/-- The state with the numbered operations left out of what was carried out. -/
def Execution.State.essence {V S : Type} (state : State V S) : State V S :=
  { state with performed := state.performed.filter fun event => !event.isNumbered }

/-- A function that differs from another in operations and operands only, and runs in lockstep
with it. -/
structure Lockstep (options : Options) (before after : Function) : Prop where
  name : after.name = before.name
  params : after.params = before.params
  returns : after.returns = before.returns
  pos : after.pos = before.pos
  labels : after.body.map Entry.label? = before.body.map Entry.label?
  results : after.body.map Entry.result? = before.body.map Entry.result?
  positions : after.body.map Entry.pos? = before.body.map Entry.pos?
  runs : ∀ {V S : Type} (meaning : Interpretation V S) (value : Literal → V)
    (apply : ValueOp → List V → V), meaning.IsFunctional options value apply →
    ∀ (vars : String → V) (hidden : S) (steps : Nat),
      (meaning.run after.body steps (.start vars hidden)).essence =
        (meaning.run before.body steps (.start vars hidden)).essence

section Numbered

variable {V S : Type} {meaning : Interpretation V S} {options : Options} {value : Literal → V}
  {apply : ValueOp → List V → V}

/-- The value that an instruction computes by its literal or by its operands alone. -/
def Lang.Instruction.outcome? (value : Literal → V) (apply : ValueOp → List V → V)
    (vars : String → V) : Instruction → Option V
  | .const _ _ literal _ => some (value literal)
  | .value op _ _ operands _ =>
    if op.treatment = .numbered then some (apply op (operands.args.map vars)) else none
  | .effect .. => none

/-- The order in which an expression lists operands does not change the value of the operation. -/
theorem Execution.Interpretation.IsFunctional.apply_arrange
    (functional : meaning.IsFunctional options value apply) (op : ValueOp) (operands : List Nat)
    (pair : op.isCommutative = true → operands.length = 2) (values : Nat → V) :
    apply op ((options.arrange op operands).map values) = apply op (operands.map values) := by
  unfold Options.arrange
  split
  next swapped =>
    rw [Bool.and_eq_true] at swapped
    obtain ⟨left, right, rfl⟩ := List.length_eq_two.1 (pair swapped.2)
    rcases List.perm_pair.1 (List.mergeSort_perm [left, right] _) with same | other
    · rw [same]
    · rw [other]
      exact functional.symmetric swapped.1 op swapped.2 _ _
  next => rfl

/-- A commutative operation that has the shape of its signature has two operands. -/
theorem Lang.length_args_of_commutative {op : ValueOp} {dest : String} {ty : Ty}
    {operands : Operands} {pos : Option Position} (commutative : op.isCommutative = true)
    (shaped : (Instruction.value op dest ty operands pos).defect? = none) :
    operands.args.length = 2 := by
  obtain ⟨signature, known, two⟩ := ValueOp.signature?_of_isCommutative commutative
  rw [Instruction.defect?, Instruction.signature?, known, Option.bind_some,
    Signature.defect?_eq_none_iff] at shaped
  rw [← two, shaped.1]
  rfl

/-- The number of the result of a numbered instruction stands for the value that it computes. -/
theorem Pool.Describes.resultNumber {pool : Pool} {values : Nat → V} {vars : String → V}
    (functional : meaning.IsFunctional options value apply)
    (described : pool.Describes value apply values vars) {numbers : List Nat} {instr : Instruction}
    (bounds : ∀ number ∈ numbers, number < pool.table.size)
    (operands : numbers.map values = instr.args.map vars) (shaped : instr.defect? = none)
    {outcome : V} (computed : instr.outcome? value apply vars = some outcome) :
    Supplies value apply pool values vars [(pool.resultNumber options numbers instr).1]
      (pool.resultNumber options numbers instr).2 [outcome] := by
  cases instr with
  | const dest ty literal pos => exact described.intern (.constant literal) trivial computed
  | effect => cases computed
  | value op dest ty given pos =>
    change numbers.map values = given.args.map vars at operands
    have numbered : op.treatment = .numbered := by
      by_contra other
      rw [Instruction.outcome?, if_neg other] at computed
      cases computed
    rw [Instruction.outcome?, if_pos numbered, Option.some.injEq] at computed
    rw [Pool.resultNumber, if_pos numbered, Pool.numberOf.eq_def]
    split
    next operand =>
      have copied : values operand = outcome := by
        rw [← computed, ← operands]
        exact (functional.copy _).symm
      exact ⟨values, fun _ _ => rfl, Nat.le_refl _, bounds, by rw [← copied]; rfl, described⟩
    next =>
      have arranged := functional.apply_arrange op numbers (fun commutative => by
        rw [← List.length_map values, operands, List.length_map]
        exact length_args_of_commutative commutative shaped) values
      refine described.intern (.apply op (options.arrange op numbers)) ?_ ?_
      · exact fun operand member =>
          bounds operand ((options.mem_arrange op numbers operand).1 member)
      · rw [Expr.meaning?, arranged, operands, computed]

/-- Reading variables of the same values computes the same value. -/
theorem outcome?_mapArgs {change : String → String} {vars : String → V}
    (same : ∀ name, vars (change name) = vars name) (instr : Instruction) :
    (instr.mapArgs change).outcome? value apply vars = instr.outcome? value apply vars := by
  have mapped (names : List String) : (names.map change).map vars = names.map vars := by
    rw [List.map_map]
    exact List.map_congr_left fun name _ => same name
  cases instr <;> simp [Instruction.mapArgs, Instruction.outcome?, mapped]

/-- What a numbered instruction is replaced by computes the same value. -/
theorem Pool.Describes.outcome?_replacement {pool : Pool} {values : Nat → V} {vars : String → V}
    (functional : meaning.IsFunctional options value apply)
    (described : pool.Describes value apply values vars) {number : Nat} {instr : Instruction}
    (dest : String) (ty : Ty)
    (computed : instr.outcome? value apply vars = some (values number)) :
    (pool.replacement number dest ty instr).outcome? value apply vars = some (values number) := by
  unfold Pool.replacement
  split
  next literal holder constant =>
    rw [described.value_literal? constant]
    rfl
  next holder unknown held =>
    have copied : apply .id [vars holder] = values number := by
      rw [functional.copy, described.vars_standIn? held]
    rw [← copied]
    rfl
  next =>
    rw [outcome?_mapArgs described.vars_preferred, computed]

/-- A numbered instruction with a result computes a value. -/
theorem exists_outcome? (value : Literal → V) (apply : ValueOp → List V → V) (vars : String → V)
    {instr : Instruction} {result : String × Ty} (numbered : instr.treatment = .numbered)
    (written : instr.result? = some result) :
    ∃ outcome, instr.outcome? value apply vars = some outcome := by
  cases instr with
  | const => exact ⟨_, rfl⟩
  | value op => exact ⟨_, if_pos numbered⟩
  | effect => cases written

/-- A numbered instruction puts the value that it computes into its destination and does nothing
else of note. -/
theorem essence_execute (functional : meaning.IsFunctional options value apply)
    (body : List Entry) (entry : Nat) (state : State V S) {instr : Instruction} {dest : String}
    {ty : Ty} (written : instr.result? = some (dest, ty)) {outcome : V}
    (computed : instr.outcome? value apply state.vars = some outcome) :
    (meaning.execute body entry state instr).essence =
      { state.essence with
        place := .before (entry + 1), vars := assign state.vars dest outcome } := by
  cases instr with
  | const =>
    cases written
    cases computed
    simp [Interpretation.execute, State.essence, functional.constant]
  | value op =>
    cases written
    have numbered : op.treatment = .numbered := by
      by_contra other
      rw [Instruction.outcome?, if_neg other] at computed
      cases computed
    rw [Instruction.outcome?, if_pos numbered, Option.some.injEq] at computed
    simp [Interpretation.execute, State.essence, functional.compute _ _ _ _ _ _ numbered,
      Event.isNumbered, numbered, computed]
  | effect => cases written

/-- States of one essence are at one place, with the same variables and hidden state. -/
theorem Execution.State.eq_of_essence {first second : State V S}
    (same : second.essence = first.essence) :
    second.place = first.place ∧ second.vars = first.vars ∧ second.hidden = first.hidden ∧
      second.performed.filter (fun event => !event.isNumbered) =
        first.performed.filter fun event => !event.isNumbered := by
  simpa [State.essence] using same

/-- An instruction that reads variables of the same values does the same in a body with the same
labels. -/
theorem essence_execute_mapArgs {before after : List Entry}
    (labels : after.map Entry.label? = before.map Entry.label?) {first second : State V S}
    (same : second.essence = first.essence) (entry : Nat) (change : String → String)
    (reads : ∀ name, first.vars (change name) = first.vars name) (instr : Instruction) :
    (meaning.execute after entry second (instr.mapArgs change)).essence =
      (meaning.execute before entry first instr).essence := by
  obtain ⟨place, vars, hidden, performed⟩ := State.eq_of_essence same
  have mapped (names : List String) : (names.map change).map first.vars = names.map first.vars := by
    rw [List.map_map]
    exact List.map_congr_left fun name _ => reads name
  have leads (op : EffectOp) (names : List String) (control : Control) :
      destination after entry op names control = destination before entry op names control := by
    cases control with
    | onward => rfl
    | stop => rfl
    | jump label number => rw [destination, destination, declarations_congr label _ _ labels]
  cases instr <;>
    simp [Interpretation.execute, Instruction.mapArgs, State.essence, vars, hidden, mapped,
      performed, leads]

/-- An instruction without a result leaves the variables as they are. -/
theorem vars_execute_of_none (meaning : Interpretation V S) (body : List Entry) (entry : Nat)
    (state : State V S) {instr : Instruction} (resultless : instr.result? = none) :
    (meaning.execute body entry state instr).vars = state.vars := by
  cases instr with
  | const => cases resultless
  | value => cases resultless
  | effect => rfl

/-- An instruction with a result gives its destination a value and leaves the other variables as
they are. -/
theorem vars_execute_of_some (meaning : Interpretation V S) (body : List Entry) (entry : Nat)
    (state : State V S) {instr : Instruction} {dest : String} {ty : Ty}
    (written : instr.result? = some (dest, ty)) :
    ∃ outcome, (meaning.execute body entry state instr).vars = assign state.vars dest outcome := by
  cases instr with
  | const =>
    cases written
    exact ⟨_, rfl⟩
  | value =>
    cases written
    exact ⟨_, rfl⟩
  | effect => cases written

/-- A fresh result has neither a literal nor a holder, so its instruction stays. -/
theorem Pool.Consistent.replacement_fresh {pool : Pool} (consistent : pool.Consistent)
    (dest : String) (ty : Ty) (instr : Instruction) :
    pool.fresh.2.replacement pool.fresh.1 dest ty instr =
      instr.mapArgs pool.fresh.2.preferred := by
  obtain ⟨unknown, unheld⟩ := consistent.fresh_unknown
  rw [Pool.replacement, unknown, unheld]

/-- The result of an instruction of which nothing is known has a fresh number. -/
theorem Pool.resultNumber_of_fresh {instr : Instruction} (fresh : instr.treatment = .fresh)
    (pool : Pool) (options : Options) (operands : List Nat) :
    pool.resultNumber options operands instr = pool.fresh := by
  cases instr with
  | const => cases fresh
  | value op =>
    have other : op.treatment ≠ .numbered := by
      change op.treatment = .fresh at fresh
      rw [fresh]
      exact nofun
    exact if_neg other
  | effect => rfl

/-- Replacing a numbered instruction by what its number asks for changes nothing of note. -/
theorem Pool.Describes.replace_numbered (functional : meaning.IsFunctional options value apply)
    (before after : List Entry) {first second : State V S} (same : second.essence = first.essence)
    (entry : Nat) {pool : Pool} {values : Nat → V} {numbers : List Nat} {instr : Instruction}
    {dest : String} {ty : Ty} (described : pool.Describes value apply values first.vars)
    (bounds : ∀ number ∈ numbers, number < pool.table.size)
    (operands : numbers.map values = instr.args.map first.vars)
    (numbered : instr.treatment = .numbered) (shaped : instr.defect? = none)
    (result : instr.result? = some (dest, ty)) :
    let counted := pool.resultNumber options numbers instr
    (meaning.execute after entry second (counted.2.replacement counted.1 dest ty instr)).essence =
        (meaning.execute before entry first instr).essence ∧
      ∃ later, (counted.2.assign dest counted.1).Describes value apply later
        (meaning.execute before entry first instr).vars := by
  intro counted
  obtain ⟨outcome, computed⟩ := exists_outcome? value apply first.vars numbered result
  obtain ⟨later, -, -, handedOut, outcomes, described⟩ :=
    described.resultNumber functional bounds operands shaped computed
  have bound : counted.1 < counted.2.table.size := handedOut _ List.mem_cons_self
  have stands : later counted.1 = outcome := by simpa using outcomes
  have executed := essence_execute functional before entry first result computed
  obtain ⟨-, vars, -, -⟩ := State.eq_of_essence same
  constructor
  · rw [← stands] at computed
    have replaced := described.outcome?_replacement functional dest ty computed
    have written := (counted.2.keeps_replacement counted.1 result).1.trans result
    rw [← vars] at replaced
    rw [essence_execute functional after entry second written replaced, executed, same, vars,
      stands]
  · refine ⟨later, ?_⟩
    have written := congrArg State.vars executed
    change (meaning.execute before entry first instr).vars =
      Execution.assign first.vars dest outcome at written
    rw [written, ← stands]
    exact described.assign dest bound

/-- Keeping an instruction of which nothing is known, but for the variables that it reads, changes
nothing of note. -/
theorem Pool.Describes.replace_fresh {before after : List Entry}
    (labels : after.map Entry.label? = before.map Entry.label?) {first second : State V S}
    (same : second.essence = first.essence) (entry : Nat) {pool : Pool} {values : Nat → V}
    {instr : Instruction} {dest : String} {ty : Ty}
    (described : pool.Describes value apply values first.vars)
    (result : instr.result? = some (dest, ty)) :
    (meaning.execute after entry second
          (pool.fresh.2.replacement pool.fresh.1 dest ty instr)).essence =
        (meaning.execute before entry first instr).essence ∧
      ∃ later, (pool.fresh.2.assign dest pool.fresh.1).Describes value apply later
        (meaning.execute before entry first instr).vars := by
  obtain ⟨outcome, written⟩ := vars_execute_of_some meaning before entry first result
  have kept := described.consistent.replacement_fresh dest ty instr
  obtain ⟨later, -, -, handedOut, outcomes, described⟩ := described.fresh outcome
  have bound : pool.fresh.1 < pool.fresh.2.table.size := handedOut _ List.mem_cons_self
  have stands : later pool.fresh.1 = outcome := by simpa using outcomes
  constructor
  · rw [kept]
    exact essence_execute_mapArgs labels same entry _ described.vars_preferred instr
  · refine ⟨later, ?_⟩
    rw [written, ← stands]
    exact described.assign dest bound

/-- An instruction and what a step writes for it do the same, and the pool that the step leaves
describes the variables behind them. -/
theorem Pool.Describes.step (functional : meaning.IsFunctional options value apply)
    {before after : List Entry} (labels : after.map Entry.label? = before.map Entry.label?)
    {first second : State V S} (same : second.essence = first.essence) (entry : Nat)
    {pool next : Pool} {values : Nat → V} {instr simplified : Instruction}
    (described : pool.Describes value apply values first.vars)
    (stepped : pool.step options instr = .ok (simplified, next)) :
    (meaning.execute after entry second simplified).essence =
        (meaning.execute before entry first instr).essence ∧
      ∃ later, next.Describes value apply later
        (meaning.execute before entry first instr).vars := by
  rcases cases_of_step stepped with ⟨ignored, rfl, rfl⟩ | ⟨looked, shaped, passed⟩
  · rw [vars_execute_of_none meaning before entry first (result?_of_ignored ignored)]
    have unchanged : simplified.mapArgs id = simplified := by
      cases simplified <;> simp [Instruction.mapArgs]
    refine ⟨?_, values, described⟩
    rw [← essence_execute_mapArgs labels same entry id (fun _ => rfl) simplified,
      unchanged]
  · obtain ⟨middle, -, -, bounds, operands, read⟩ := described.readAll instr.args
    cases result : instr.result? with
    | none =>
      rw [past_of_none result, Prod.mk.injEq] at passed
      rw [vars_execute_of_none meaning before entry first result, ← passed.1, ← passed.2]
      exact ⟨essence_execute_mapArgs labels same entry _ read.vars_preferred instr, middle, read⟩
    | some found =>
      rw [past_of_some result, Prod.mk.injEq] at passed
      rw [← passed.1, ← passed.2]
      cases treated : instr.treatment with
      | ignored => exact absurd treated looked
      | fresh =>
        rw [Pool.resultNumber_of_fresh treated]
        exact read.replace_fresh labels same entry result
      | numbered =>
        exact read.replace_numbered functional before after same entry bounds operands treated
          (shaped treated) result

/-- Value numbering of a function succeeds when it numbers the values of each of its blocks. -/
theorem Lang.Function.numberValues_eq_ok_iff {function simplified : Function} :
    function.numberValues options = .ok simplified ↔
      ∃ blocks, List.Forall₂ (fun block other => ∃ count,
          block.numberValues options = (other, .ok count)) function.blocks blocks ∧
        simplified = function.withBlocks blocks := by
  have each (block other : Block) :
      (block.numberValues options).2.map (fun _ => (block.numberValues options).1) = .ok other ↔
        ∃ count, block.numberValues options = (other, .ok count) := by
    cases counted : (block.numberValues options).2 with
    | error fault => simp [Prod.ext_iff, counted, Except.map]
    | ok count => simp [Prod.ext_iff, counted, Except.map]
  unfold Function.numberValues
  rw [bind_eq_ok_iff]
  refine exists_congr fun blocks => and_congr ((mapM_eq_ok_iff _ _ _).trans ⟨?_, ?_⟩) ?_
  · exact fun along => along.imp fun block other => (each block other).1
  · exact fun along => along.imp fun block other => (each block other).2
  · exact ⟨fun same => (Except.ok.inj same).symm, fun same => congrArg _ same.symm⟩

/-- Bodies of which the second is made from the first by value numbering, from a pool on. Behind an
instruction the pool may be given up for the empty one. -/
inductive Simplified (options : Options) : Pool → List Entry → List Entry → Prop
  | done (pool : Pool) : Simplified options pool [] []
  | label (pool : Pool) (name : String) (pos : Option Position) {before after : List Entry}
      (rest : Simplified options {} before after) :
      Simplified options pool (.label name pos :: before) (.label name pos :: after)
  | instr {pool next behind : Pool} {instr simplified : Instruction} {before after : List Entry}
      (stepped : pool.step options instr = .ok (simplified, next))
      (kept : behind = next ∨ behind = {}) (rest : Simplified options behind before after) :
      Simplified options pool (.instr instr :: before) (.instr simplified :: after)

namespace Simplified

/-- Simplifying the instructions of a block and then what follows simplifies all of it. -/
theorem of_simplify {pool : Pool} {instrs simplified : List Instruction} {count : Nat}
    {before after : List Entry}
    (succeeded : Pool.simplify options pool instrs = (simplified, .ok count))
    (empty : instrs = [] → pool = {}) (rest : Simplified options {} before after) :
    Simplified options pool (instrs.map .instr ++ before) (simplified.map .instr ++ after) := by
  induction instrs generalizing pool simplified count with
  | nil =>
    cases succeeded
    rw [empty rfl]
    exact rest
  | cons instr instrs ih =>
    rw [Pool.simplify] at succeeded
    cases stepped : pool.step options instr with
    | error fault =>
      rw [stepped] at succeeded
      cases succeeded
    | ok passed =>
      obtain ⟨first, next⟩ := passed
      simp only [stepped, Prod.mk.injEq] at succeeded
      obtain ⟨rfl, counted⟩ := succeeded
      cases later : (Pool.simplify options next instrs).2 with
      | error fault =>
        rw [later] at counted
        cases counted
      | ok number =>
        by_cases last : instrs = []
        · subst last
          exact .instr stepped (.inr rfl) rest
        · exact .instr stepped (.inl rfl)
            (ih (Prod.ext rfl later) (fun none => absurd none last))

/-- Simplifying blocks one after the other simplifies their code. -/
theorem of_blocks {blocks simplified : List Block}
    (succeeded : List.Forall₂ (fun block other => ∃ count,
      block.numberValues options = (other, .ok count)) blocks simplified) :
    Simplified options {} (blocks.flatMap Block.code) (simplified.flatMap Block.code) := by
  induction succeeded with
  | nil => exact .done {}
  | @cons block other blocks others first _ ih =>
    obtain ⟨count, first⟩ := first
    rw [Block.numberValues, Prod.mk.injEq] at first
    obtain ⟨rfl, counted⟩ := first
    have instrs := of_simplify (Prod.ext rfl counted) (fun _ => rfl) ih
    rw [List.flatMap_cons, List.flatMap_cons, Block.code, Block.code]
    by_cases invented : block.synthetic = true
    · simp only [invented, if_true, List.nil_append]
      exact instrs
    · simp only [invented]
      exact .label {} block.label block.labelPos instrs

/-- What value numbering makes of a function has a simplified body and is the same otherwise. -/
theorem of_function {function simplified : Function}
    (succeeded : function.numberValues options = .ok simplified) :
    Simplified options {} function.body simplified.body ∧
      simplified = { function with body := simplified.body } := by
  obtain ⟨blocks, along, rfl⟩ := Function.numberValues_eq_ok_iff.1 succeeded
  refine ⟨?_, rfl⟩
  have simplified := of_blocks along
  rwa [flatMap_code_blocks] at simplified

/-- Simplified bodies have the same entries but for operations and operands. -/
theorem map_eq {α : Type} (view : Entry → α) (keeps : ∀ first second : Instruction,
      second.result? = first.result? → second.pos? = first.pos? →
      view (.instr second) = view (.instr first))
    {pool : Pool} {before after : List Entry} (simplified : Simplified options pool before after) :
    after.map view = before.map view := by
  induction simplified with
  | done => rfl
  | label pool name pos rest ih => rw [List.map_cons, List.map_cons, ih]
  | instr stepped kept rest ih =>
    obtain ⟨result, pos⟩ := Pool.keeps_of_step stepped
    rw [List.map_cons, List.map_cons, ih, keeps _ _ result pos]

/-- From a label on, bodies are simplified whatever was known in front of it. -/
theorem at_label {pool : Pool} {before after : List Entry}
    (simplified : Simplified options pool before after) {place : Nat} {label : String}
    (declared : place ∈ declarations label before) :
    Simplified options {} (before.drop place) (after.drop place) := by
  rw [mem_declarations] at declared
  induction simplified generalizing place with
  | done => simp at declared
  | label pool name pos rest ih =>
    cases place with
    | zero => exact .label {} name pos rest
    | succ place => exact ih (by simpa using declared)
  | instr stepped kept rest ih =>
    cases place with
    | zero => simp [Entry.declares] at declared
    | succ place => exact ih (by simpa using declared)

/-- The entries at one place of simplified bodies, and what follows them. -/
theorem cases_at {pool : Pool} {before after : List Entry} {place : Nat}
    (rest : Simplified options pool (before.drop place) (after.drop place)) :
    (before[place]? = none ∧ after[place]? = none) ∨
    (∃ name pos, before[place]? = some (.label name pos) ∧
      after[place]? = some (.label name pos) ∧
      Simplified options {} (before.drop (place + 1)) (after.drop (place + 1))) ∨
    ∃ instr simplified next behind, before[place]? = some (.instr instr) ∧
      after[place]? = some (.instr simplified) ∧
      pool.step options instr = .ok (simplified, next) ∧ (behind = next ∨ behind = {}) ∧
      Simplified options behind (before.drop (place + 1)) (after.drop (place + 1)) := by
  have head (entries : List Entry) : entries[place]? = (entries.drop place).head? := by
    rw [List.head?_drop]
  have tail (entries : List Entry) : entries.drop (place + 1) = (entries.drop place).tail := by
    rw [List.tail_drop]
  rw [head before, head after, tail before, tail after]
  generalize before.drop place = early at *
  generalize after.drop place = late at *
  cases rest with
  | done => exact .inl ⟨rfl, rfl⟩
  | label pool name pos rest => exact .inr (.inl ⟨name, pos, rfl, rfl, rest⟩)
  | instr stepped kept rest => exact .inr (.inr ⟨_, _, _, _, rfl, rfl, stepped, kept, rest⟩)

end Simplified

/-- Runs at the same place in the same state, where a pool in front of the next entry describes the
variables. -/
structure Aligned (options : Options) (value : Literal → V) (apply : ValueOp → List V → V)
    (before after : List Entry) (first second : State V S) : Prop where
  same : second.essence = first.essence
  described : ∀ entry, first.place = .before entry → ∃ pool values,
    Simplified options pool (before.drop entry) (after.drop entry) ∧
      pool.Describes value apply values first.vars

/-- An instruction sends control to the next entry, to a declaration of a label, or nowhere. -/
theorem cases_of_place_execute (body : List Entry) (entry : Nat) (state : State V S)
    (instr : Instruction) {next : Nat}
    (placed : (meaning.execute body entry state instr).place = .before next) :
    next = entry + 1 ∨ ∃ label, next ∈ declarations label body := by
  cases instr with
  | const => exact .inl (Place.before.inj placed).symm
  | value => exact .inl (Place.before.inj placed).symm
  | effect op operands pos =>
    change destination body entry op operands.labels _ = _ at placed
    unfold destination at placed
    split at placed
    next => exact .inl (Place.before.inj placed).symm
    next label number _ =>
      split at placed
      · split at placed
        next target found =>
          rw [← Place.before.inj placed]
          exact .inr ⟨label, List.mem_of_getElem? found⟩
        next => cases placed
      · cases placed
    next => cases placed

/-- Aligned runs are aligned after a further step. -/
theorem Aligned.step (functional : meaning.IsFunctional options value apply)
    {before after : List Entry} (simplified : Simplified options {} before after)
    {first second : State V S} (aligned : Aligned options value apply before after first second) :
    Aligned options value apply before after (meaning.step before first)
      (meaning.step after second) := by
  have labels := simplified.map_eq Entry.label? fun _ _ _ _ => rfl
  obtain ⟨place, vars, hidden, performed⟩ := State.eq_of_essence aligned.same
  unfold Interpretation.step
  rw [place]
  cases stands : first.place with
  | ended =>
    refine ⟨aligned.same, fun entry placed => ?_⟩
    rw [stands] at placed
    cases placed
  | stopped op =>
    refine ⟨aligned.same, fun entry placed => ?_⟩
    rw [stands] at placed
    cases placed
  | before entry =>
    obtain ⟨pool, values, rest, described⟩ := aligned.described entry stands
    rcases rest.cases_at with ⟨none, other⟩ | ⟨name, pos, found, other, behind⟩ |
      ⟨instr, written, next, kept, found, other, stepped, known, behind⟩
    · simp only [none, other]
      exact ⟨by simp [State.essence, vars, hidden, performed], nofun⟩
    · simp only [found, other]
      refine ⟨by simp [State.essence, vars, hidden, performed], fun entry placed => ?_⟩
      cases placed
      exact ⟨{}, values, behind, Pool.describes_empty value apply values first.vars⟩
    · simp only [found, other]
      obtain ⟨executed, later, describes⟩ :=
        described.step functional labels aligned.same entry stepped
      refine ⟨executed, fun target placed => ?_⟩
      have empty := Pool.describes_empty value apply later
        (meaning.execute before entry first instr).vars
      rcases cases_of_place_execute before entry first instr placed with rfl | ⟨label, declared⟩
      · rcases known with rfl | rfl
        · exact ⟨_, later, behind, describes⟩
        · exact ⟨_, later, behind, empty⟩
      · exact ⟨{}, later, simplified.at_label declared, empty⟩

/-- Runs that start in the same state stay aligned. -/
theorem Aligned.run (functional : meaning.IsFunctional options value apply)
    {before after : List Entry} (simplified : Simplified options {} before after)
    (vars : String → V) (hidden : S) (initial : V) (steps : Nat) :
    Aligned options value apply before after (meaning.run before steps (.start vars hidden))
      (meaning.run after steps (.start vars hidden)) := by
  induction steps with
  | zero =>
    refine ⟨rfl, fun entry placed => ?_⟩
    cases placed
    exact ⟨{}, fun _ => initial, simplified, Pool.describes_empty _ _ _ _⟩
  | succ steps ih =>
    rw [Interpretation.run, Interpretation.run, Function.iterate_succ_apply',
      Function.iterate_succ_apply']
    exact ih.step functional simplified

end Numbered

/-- Instructions of which the numbered ones have the shape of their operation are simplified without
a fault. -/
theorem Pool.simplify_succeeds (options : Options) (pool : Pool) (instrs : List Instruction)
    (shaped : ∀ instr ∈ instrs, instr.treatment = .numbered → instr.defect? = none) :
    ∃ count, (Pool.simplify options pool instrs).2 = .ok count := by
  induction instrs generalizing pool with
  | nil => exact ⟨0, rfl⟩
  | cons instr instrs ih =>
    have stepped : ∃ passed, pool.step options instr = .ok passed := by
      rw [step_eq]
      cases treated : instr.treatment with
      | ignored => exact ⟨_, rfl⟩
      | fresh => exact ⟨_, rfl⟩
      | numbered =>
        rw [shaped instr List.mem_cons_self treated]
        exact ⟨_, rfl⟩
    obtain ⟨⟨first, next⟩, stepped⟩ := stepped
    obtain ⟨count, others⟩ :=
      ih next fun other member => shaped other (List.mem_cons_of_mem instr member)
    refine ⟨instr.changesTo first + count, ?_⟩
    simp only [Pool.simplify, stepped, others, Except.map]

/-- Value numbering succeeds on a program whose numbered instructions have the shape of their
operation. -/
theorem numberValues_succeeds (program : Program) (options : Options)
    (shaped : ∀ function ∈ program.functions, ∀ instr ∈ function.body.filterMap Entry.instr?,
      instr.treatment = .numbered → instr.defect? = none) :
    ∃ simplified, program.numberValues options = .ok simplified := by
  have functions : ∀ function ∈ program.functions,
      ∃ simplified, function.numberValues options = .ok simplified := by
    intro function member
    have blocks : ∀ block ∈ function.blocks, ∃ simplified,
        (block.numberValues options).2.map (fun _ => (block.numberValues options).1) =
          .ok simplified := by
      intro block inside
      obtain ⟨count, counted⟩ := Pool.simplify_succeeds options {} block.instrs
        fun instr among => shaped function member instr (by
          rw [List.mem_filterMap, ← flatMap_code_blocks]
          refine ⟨.instr instr, List.mem_flatMap.2 ⟨block, inside, ?_⟩, rfl⟩
          exact List.mem_append_right _ (List.mem_map_of_mem among))
      refine ⟨(block.numberValues options).1, ?_⟩
      simp only [Block.numberValues, counted, Except.map]
    obtain ⟨simplified, along⟩ := exists_mapM_eq_ok _ _ blocks
    exact ⟨function.withBlocks simplified, by rw [Function.numberValues, along]; rfl⟩
  obtain ⟨simplified, along⟩ := exists_mapM_eq_ok _ _ functions
  exact ⟨{ functions := simplified }, by rw [Program.numberValues, along]; rfl⟩

/-- Value numbering of a program numbers the values of each of its functions. -/
theorem forall₂_of_numberValues {program simplified : Program} {options : Options}
    (succeeded : program.numberValues options = .ok simplified) :
    List.Forall₂ (fun function other => function.numberValues options = .ok other)
      program.functions simplified.functions := by
  rw [← mapM_eq_ok_iff]
  unfold Program.numberValues at succeeded
  cases along : program.functions.mapM fun function => function.numberValues options with
  | error fault =>
    rw [along] at succeeded
    cases succeeded
  | ok functions =>
    rw [along] at succeeded
    cases succeeded
    rfl

/-- Whenever value numbering succeeds, every function it gives runs in lockstep with the function it
was made from. -/
theorem numberValues_lockstep (program simplified : Program) (options : Options)
    (succeeded : program.numberValues options = .ok simplified) :
    List.Forall₂ (Lockstep options) program.functions simplified.functions := by
  refine (forall₂_of_numberValues succeeded).imp fun before after numbered => ?_
  obtain ⟨bodies, same⟩ := Simplified.of_function numbered
  constructor
  · rw [same]
  · rw [same]
  · rw [same]
  · rw [same]
  · exact bodies.map_eq _ fun _ _ _ _ => rfl
  · exact bodies.map_eq _ fun _ _ result _ => result
  · exact bodies.map_eq _ fun _ _ _ pos => pos
  · intro V S meaning value apply functional vars hidden steps
    exact (Aligned.run functional bodies vars hidden (vars "") steps).same

/-- A loop that repeats a sum with its operands the other way round, and again after one of them has
been reassigned. -/
def repeatedSums : Program where
  functions := [{
    name := "main"
    params := [⟨"a", .int⟩, ⟨"b", .int⟩]
    body := [
      .label "top" none,
      .instr (.value .add "x" .int { args := ["a", "b"] } none),
      .instr (.value .add "y" .int { args := ["b", "a"] } none),
      .instr (.value .id "a" .int { args := ["y"] } none),
      .instr (.value .add "z" .int { args := ["a", "b"] } none),
      .instr (.effect .print { args := ["y", "z"] } none),
      .instr (.effect .br { args := ["z"], labels := ["top", "out"] } none),
      .label "out" none,
      .instr (.effect .ret {} none)] }]

/-- Under the interpretation that adds operands up, numbered operations are functions of them. -/
theorem adding_isFunctional : Interpretation.adding.IsFunctional { commutative := true }
    (fun literal => Interpretation.adding.constant .int literal 0) (fun _ => List.sum) where
  constant ty literal hidden := rfl
  compute op ty funcs labels operands hidden numbered := by
    have uncalled : op ≠ .call := by
      rintro rfl
      cases numbered
    exact Prod.ext rfl (if_neg uncalled)
  copy operand := List.sum_singleton
  symmetric commutative op _ left right := by simp [Int.add_comm]

/-- The loop that repeats sums can be value-numbered, and then runs in lockstep with itself, also
under the interpretation that adds operands up. -/
theorem numberValues_lockstep_repeatedSums :
    ∃ simplified, repeatedSums.numberValues { commutative := true } = .ok simplified ∧
      List.Forall₂ (Lockstep { commutative := true }) repeatedSums.functions
        simplified.functions ∧
      List.Forall₂ (fun before after => ∀ vars hidden steps,
        (Interpretation.adding.run after.body steps (.start vars hidden)).essence =
          (Interpretation.adding.run before.body steps (.start vars hidden)).essence)
        repeatedSums.functions simplified.functions := by
  obtain ⟨simplified, succeeded⟩ :=
    numberValues_succeeds repeatedSums { commutative := true } (by decide)
  have lockstep := numberValues_lockstep repeatedSums simplified _ succeeded
  exact ⟨simplified, succeeded, lockstep,
    lockstep.imp fun _ _ together => together.runs _ _ _ adding_isFunctional⟩

end Midend
