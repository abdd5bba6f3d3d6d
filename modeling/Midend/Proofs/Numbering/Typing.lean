import Midend.Proofs.Numbering.Lockstep

/-!
# Value numbering and types

A well-typed function stays well-typed under value numbering, and variables are only replaced by
variables of the same type, as long as no block declares one literal at two types.

What carries the proof is that types can be computed like values: a well-typed body, run on types
instead of values, leaves every variable with its own type. A pool therefore describes the types of
the variables all along, and numbers stand for types. Where a literal is declared at two types, its
number would have to stand for both.
-/

namespace Midend

open Lang Execution

/-- The type that a slot of a signature stands for when its type variable does for a given one. -/
def Lang.Slot.typeAt (variableType : Ty) : Slot → Ty
  | .int => .int
  | .bool => .bool
  | .float => .float
  | .char => .char
  | .any => variableType
  | .pointer => .ptr variableType

/-- An instruction declares its destination as it should be, and a value operation with a signature
has operands and a result of the types that the signature asks for. -/
def Lang.Instruction.IsTyped (types : String → Ty) : Instruction → Prop
  | .const dest ty .. => types dest = ty
  | .value op dest ty operands _ =>
    types dest = ty ∧ ∀ signature, op.signature? = some signature →
      ∃ variableType, operands.args.map types = signature.args.map (Slot.typeAt variableType) ∧
        ∀ slot ∈ signature.result, slot.typeAt variableType = ty
  | .effect .. => True

/-- A function whose parameters and instructions agree with the types of its variables. -/
structure Lang.Function.IsTyped (types : String → Ty) (function : Function) : Prop where
  params : ∀ param ∈ function.params, types param.name = param.ty
  body : ∀ instr, .instr instr ∈ function.body → instr.IsTyped types

/-- The literal of a constant with the type that it is declared at. -/
def Lang.Instruction.constant? : Instruction → Option (Literal × Ty)
  | .const _ ty literal _ => some (literal, ty)
  | .value .. | .effect .. => none

/-- Constants with the same literal are declared at the same type. -/
def OneTypePerLiteral (instrs : List Instruction) : Prop :=
  ∀ first ∈ instrs.filterMap Instruction.constant?,
    ∀ second ∈ instrs.filterMap Instruction.constant?,
      first.1 = second.1 → first.2 = second.2

/-- A constant is declared at the type that is given for its literal. -/
def Lang.Instruction.DeclaresBy (literals : Literal → Ty) (instr : Instruction) : Prop :=
  ∀ constant ∈ instr.constant?, literals constant.1 = constant.2

/-- An entry stays, or its instruction reads variables of the same types instead of its own, or
becomes a constant or a copy of the same type as its result. -/
inductive Lang.Entry.KeepsTypes (types : String → Ty) : Entry → Entry → Prop
  | label (name : String) (pos : Option Position) : KeepsTypes types (.label name pos)
      (.label name pos)
  | reads {instr : Instruction} {change : String → String}
      (same : ∀ name, types (change name) = types name) :
      KeepsTypes types (.instr instr) (.instr (instr.mapArgs change))
  | constant {instr : Instruction} {dest : String} {ty : Ty} {literal : Literal}
      {pos : Option Position} (result : instr.result? = some (dest, ty)) :
      KeepsTypes types (.instr instr) (.instr (.const dest ty literal pos))
  | copy {instr : Instruction} {dest holder : String} {ty : Ty} {pos : Option Position}
      (result : instr.result? = some (dest, ty)) (same : types holder = ty) :
      KeepsTypes types (.instr instr) (.instr (.value .id dest ty { args := [holder] } pos))

section Typed

variable {types : String → Ty}

/-- A well-typed instruction declares its destination as it should be. -/
theorem Lang.Instruction.IsTyped.result {instr : Instruction} (typed : instr.IsTyped types)
    {dest : String} {ty : Ty} (result : instr.result? = some (dest, ty)) : types dest = ty := by
  cases instr with
  | const =>
    cases result
    exact typed
  | value =>
    cases result
    exact typed.1
  | effect => cases result

/-- An instruction that stays keeps types. -/
theorem Lang.Entry.KeepsTypes.refl (instr : Instruction) :
    Entry.KeepsTypes types (.instr instr) (.instr instr) := by
  have unchanged : instr.mapArgs id = instr := by
    cases instr <;> simp [Instruction.mapArgs]
  have keeps : Entry.KeepsTypes types (.instr instr) (.instr (instr.mapArgs id)) :=
    .reads fun _ => rfl
  rwa [unchanged] at keeps

/-- An instruction that takes the place of a well-typed one and keeps types is well-typed. -/
theorem Lang.Entry.KeepsTypes.isTyped {before after : Instruction}
    (keeps : Entry.KeepsTypes types (.instr before) (.instr after))
    (typed : before.IsTyped types) : after.IsTyped types := by
  cases keeps with
  | constant result => exact typed.result result
  | @copy _ dest holder ty _ result same =>
    refine ⟨typed.result result, fun signature known => ?_⟩
    cases known
    exact ⟨ty, by simp [Slot.typeAt, same], fun slot isResult => by cases isResult; rfl⟩
  | @reads _ change same =>
    cases before with
    | const => exact typed
    | effect => exact typed
    | value op dest ty operands pos =>
      refine ⟨typed.1, fun signature known => ?_⟩
      obtain ⟨variableType, args, result⟩ := typed.2 signature known
      have mapped : (operands.args.map change).map types = operands.args.map types := by
        rw [List.map_map]
        exact List.map_congr_left fun name _ => same name
      exact ⟨variableType, mapped.trans args, result⟩

end Typed

/-- Where constants with the same literal are declared at the same type, literals can be given
types. -/
theorem OneTypePerLiteral.exists_literals {instrs : List Instruction}
    (declared : OneTypePerLiteral instrs) :
    ∃ literals : Literal → Ty, ∀ instr ∈ instrs, instr.DeclaresBy literals := by
  let constants := instrs.filterMap Instruction.constant?
  refine ⟨fun literal => ((constants.find? fun other => other.1 = literal).map Prod.snd).getD .int,
    fun instr member constant isConstant => ?_⟩
  have among : constant ∈ constants := List.mem_filterMap.2 ⟨instr, member, isConstant⟩
  cases found : constants.find? fun other => other.1 = constant.1 with
  | none => simpa using List.find?_eq_none.1 found constant among
  | some other =>
    have same : other.1 = constant.1 := by simpa using List.find?_some found
    simp only [found, Option.map_some, Option.getD_some]
    exact declared other (List.mem_of_find?_eq_some found) constant among same

/-- The type of the result of an operation on operands of given types. -/
def Lang.ValueOp.resultType (op : ValueOp) (operands : List Ty) : Ty :=
  match op.signature?.bind Signature.result with
  | some slot => slot.typeAt (operands.headD .int)
  | none => .int

/-- The interpretation that computes types: constants have the type of their literal, and so have
numbered operations the type that their signature gives them. -/
def Execution.Interpretation.typing (literals : Literal → Ty) : Interpretation Ty Unit where
  constant _ literal _ := literals literal
  compute op ty _ _ operands hidden :=
    (if op.treatment = .numbered then op.resultType operands else ty, hidden)
  perform _ _ _ _ hidden := (hidden, .stop)

/-- The type of a numbered operation depends on those of its operands alone. -/
theorem typing_isFunctional (options : Options) (literals : Literal → Ty) :
    (Interpretation.typing literals).IsFunctional options literals ValueOp.resultType where
  constant ty literal hidden := rfl
  compute op ty funcs labels operands hidden numbered :=
    Prod.ext (if_pos numbered) rfl
  copy operand := rfl
  symmetric _ op commutative left right := by
    cases op <;> first | rfl | cases commutative

/-- The signature of a numbered operation has a result, of the type that is computed from those of
the operands. -/
theorem exists_result_of_numbered {op : ValueOp} (numbered : op.treatment = .numbered) :
    ∃ signature slot, op.signature? = some signature ∧ signature.result = some slot ∧
      ∀ variableType, op.resultType (signature.args.map (Slot.typeAt variableType)) =
        slot.typeAt variableType := by
  cases op <;> first | exact ⟨_, _, rfl, rfl, fun _ => rfl⟩ | cases numbered

section Computed

variable {types : String → Ty} {literals : Literal → Ty} {options : Options}

/-- The type computed for a well-typed instruction is that of its result. -/
theorem Lang.Instruction.IsTyped.outcome? {instr : Instruction} (typed : instr.IsTyped types)
    (declared : instr.DeclaresBy literals) {dest : String} {ty : Ty}
    (numbered : instr.treatment = .numbered) (result : instr.result? = some (dest, ty)) :
    instr.outcome? literals ValueOp.resultType types = some ty := by
  cases instr with
  | const =>
    cases result
    exact congrArg some (declared _ rfl)
  | effect => cases result
  | value op _ _ operands pos =>
    cases result
    change op.treatment = .numbered at numbered
    obtain ⟨signature, slot, known, isResult, computed⟩ := exists_result_of_numbered numbered
    obtain ⟨variableType, args, returns⟩ := typed.2 signature known
    have same : op.resultType (operands.args.map types) = ty := by
      rw [args, computed, returns slot isResult]
    rw [Instruction.outcome?, if_pos numbered, same]

/-- Run on types, a well-typed instruction leaves every variable with its type. -/
theorem Lang.Instruction.IsTyped.vars_execute {instr : Instruction} (typed : instr.IsTyped types)
    (declared : instr.DeclaresBy literals) (body : List Entry) (entry : Nat) :
    ((Interpretation.typing literals).execute body entry (.start types ()) instr).vars = types := by
  have unchanged {dest : String} {ty : Ty} (same : types dest = ty) :
      assign types dest ty = types := by
    funext other
    by_cases isDest : other = dest
    · rw [assign, if_pos isDest, isDest, same]
    · rw [assign, if_neg isDest]
  cases instr with
  | const dest ty literal pos =>
    exact unchanged (typed.trans (declared _ rfl).symm)
  | effect => rfl
  | value op dest ty operands pos =>
    refine unchanged (typed.1.trans ?_)
    change ty = if op.treatment = .numbered then op.resultType (operands.args.map types) else ty
    split
    next numbered =>
      have computed := typed.outcome? declared numbered rfl
      rw [Instruction.outcome?, if_pos numbered] at computed
      exact (Option.some.inj computed).symm
    next => rfl

/-- What a numbered instruction is replaced by keeps types when its number stands for the type of
its result. -/
theorem Pool.Describes.keepsTypes_replacement {pool : Pool} {values : Nat → Ty}
    (described : pool.Describes literals ValueOp.resultType values types) {number : Nat}
    {instr : Instruction} {dest : String} {ty : Ty} (result : instr.result? = some (dest, ty))
    (stands : values number = ty) :
    Entry.KeepsTypes types (.instr instr) (.instr (pool.replacement number dest ty instr)) := by
  unfold Pool.replacement
  split
  next => exact .constant result
  next held => exact .copy result ((described.vars_standIn? held).trans stands)
  next => exact .reads described.vars_preferred

/-- The pool that a step past a well-typed instruction leaves describes the types of the variables
behind it. -/
theorem Pool.Describes.types_step {pool next : Pool} {values : Nat → Ty}
    (described : pool.Describes literals ValueOp.resultType values types)
    {instr simplified : Instruction} (typed : instr.IsTyped types)
    (declared : instr.DeclaresBy literals)
    (stepped : pool.step options instr = .ok (simplified, next)) :
    ∃ later, next.Describes literals ValueOp.resultType later types := by
  let start : State Ty Unit := .start types ()
  have labels : ([] : List Entry).map Entry.label? = ([] : List Entry).map Entry.label? := rfl
  have same : start.essence = start.essence := rfl
  -- The step known for values is taken on types, which a well-typed instruction leaves alone.
  have behind := (described.step (typing_isFunctional options literals) labels same 0 stepped).2
  rwa [typed.vars_execute declared] at behind

/-- A step past a well-typed instruction keeps types. -/
theorem Pool.Describes.keepsTypes_step {pool next : Pool} {values : Nat → Ty}
    (described : pool.Describes literals ValueOp.resultType values types)
    {instr simplified : Instruction} (typed : instr.IsTyped types)
    (declared : instr.DeclaresBy literals)
    (stepped : pool.step options instr = .ok (simplified, next)) :
    Entry.KeepsTypes types (.instr instr) (.instr simplified) := by
  rcases cases_of_step stepped with ⟨-, rfl, -⟩ | ⟨looked, shaped, passed⟩
  · exact .refl simplified
  · obtain ⟨middle, -, -, bounds, operands, read⟩ := described.readAll instr.args
    cases result : instr.result? with
    | none =>
      rw [past_of_none result, Prod.mk.injEq] at passed
      rw [← passed.1]
      exact .reads read.vars_preferred
    | some found =>
      obtain ⟨dest, ty⟩ := found
      rw [past_of_some result, Prod.mk.injEq] at passed
      rw [← passed.1]
      cases treated : instr.treatment with
      | ignored => exact absurd treated looked
      | fresh =>
        rw [Pool.resultNumber_of_fresh treated]
        obtain ⟨later, -, -, -, outcomes, fresh⟩ := read.fresh ty
        exact fresh.keepsTypes_replacement result (by simpa using outcomes)
      | numbered =>
        have computed := typed.outcome? declared treated result
        obtain ⟨later, -, -, -, outcomes, counted⟩ := read.resultNumber
          (typing_isFunctional options literals) bounds operands (shaped treated) computed
        exact counted.keepsTypes_replacement result (by simpa using outcomes)

/-- Simplifying well-typed instructions keeps types. -/
theorem Pool.Describes.keepsTypes_simplify {pool : Pool} {values : Nat → Ty}
    (described : pool.Describes literals ValueOp.resultType values types)
    {instrs simplified : List Instruction} {count : Nat}
    (typed : ∀ instr ∈ instrs, instr.IsTyped types)
    (declared : ∀ instr ∈ instrs, instr.DeclaresBy literals)
    (succeeded : Pool.simplify options pool instrs = (simplified, .ok count)) :
    List.Forall₂ (Entry.KeepsTypes types) (instrs.map .instr) (simplified.map .instr) := by
  induction instrs generalizing pool values simplified count with
  | nil =>
    cases succeeded
    exact .nil
  | cons instr instrs ih =>
    rw [Pool.simplify] at succeeded
    cases stepped : pool.step options instr with
    | error fault =>
      rw [stepped] at succeeded
      cases succeeded
    | ok passed =>
      simp only [stepped, Prod.mk.injEq] at succeeded
      obtain ⟨rfl, counted⟩ := succeeded
      have first := typed instr List.mem_cons_self
      have known := declared instr List.mem_cons_self
      have keeps := described.keepsTypes_step first known stepped
      obtain ⟨later, behind⟩ := described.types_step first known stepped
      cases others : (Pool.simplify options passed.2 instrs).2 with
      | error fault =>
        rw [others] at counted
        cases counted
      | ok number =>
        refine .cons keeps (ih behind ?_ ?_ (Prod.ext rfl others))
        · exact fun other member => typed other (List.mem_cons_of_mem instr member)
        · exact fun other member => declared other (List.mem_cons_of_mem instr member)

end Computed

section Blocks

variable {types : String → Ty} {options : Options}

/-- Numbering the values of a well-typed block keeps types when constants with the same literal are
declared at the same type. -/
theorem Block.keepsTypes_numberValues {block simplified : Block} {count : Nat}
    (typed : ∀ instr ∈ block.instrs, instr.IsTyped types)
    (declared : OneTypePerLiteral block.instrs)
    (succeeded : block.numberValues options = (simplified, .ok count)) :
    List.Forall₂ (Entry.KeepsTypes types) block.code simplified.code := by
  obtain ⟨literals, declared⟩ := declared.exists_literals
  rw [Block.numberValues, Prod.mk.injEq] at succeeded
  obtain ⟨rfl, counted⟩ := succeeded
  have empty := Pool.describes_empty literals ValueOp.resultType (fun _ => .int) types
  have instrs := empty.keepsTypes_simplify typed declared (Prod.ext rfl counted)
  unfold Block.code
  cases block.synthetic with
  | true => exact instrs
  | false => exact .cons (.label block.label block.labelPos) instrs

/-- Numbering the values of a well-typed function keeps types when, within each block, constants
with the same literal are declared at the same type. -/
theorem Lang.Function.IsTyped.keepsTypes_numberValues {function simplified : Function}
    (typed : function.IsTyped types)
    (declared : ∀ block ∈ function.blocks, OneTypePerLiteral block.instrs)
    (succeeded : function.numberValues options = .ok simplified) :
    List.Forall₂ (Entry.KeepsTypes types) function.body simplified.body := by
  obtain ⟨blocks, along, rfl⟩ := Function.numberValues_eq_ok_iff.1 succeeded
  have instrs : ∀ block ∈ function.blocks, ∀ instr ∈ block.instrs, instr.IsTyped types := by
    intro block member instr within
    refine typed.body instr ?_
    rw [← flatMap_code_blocks function]
    exact List.mem_flatMap.2 ⟨block, member, List.mem_append_right _ (List.mem_map_of_mem within)⟩
  have known : ∀ block ∈ function.blocks,
      (∀ instr ∈ block.instrs, instr.IsTyped types) ∧ OneTypePerLiteral block.instrs :=
    fun block member => ⟨instrs block member, declared block member⟩
  have codes : List.Forall₂ (fun block other =>
      List.Forall₂ (Entry.KeepsTypes types) block.code other.code) function.blocks blocks := by
    refine ((List.forall₂_and_left _ _).2 ⟨known, along⟩).imp fun block other both => ?_
    obtain ⟨⟨typed, declared⟩, count, counted⟩ := both
    exact Block.keepsTypes_numberValues typed declared counted
  rw [← flatMap_code_blocks function]
  exact List.rel_flatMap codes fun _ _ same => same

/-- A well-typed function whose entries keep types is well-typed afterwards. -/
theorem Lang.Function.IsTyped.of_keepsTypes {before after : Function}
    (typed : before.IsTyped types) (params : after.params = before.params)
    (keeps : List.Forall₂ (Entry.KeepsTypes types) before.body after.body) :
    after.IsTyped types := by
  refine ⟨params ▸ typed.params, fun instr member => ?_⟩
  obtain ⟨entry, among, kept⟩ := exists_of_forall₂ keeps.flip member
  cases entry with
  | label name pos => cases kept
  | instr other => exact kept.isTyped (typed.body other among)

end Blocks

/-- Whenever value numbering succeeds, well-typed functions stay well-typed, whatever the types of
their variables are, if within each of their blocks constants with the same literal are declared at
the same type. Variables are then only replaced by variables of the same type. -/
theorem numberValues_keepsTypes (program simplified : Program) (options : Options)
    (succeeded : program.numberValues options = .ok simplified) :
    List.Forall₂ (fun before after => ∀ types, before.IsTyped types →
      (∀ block ∈ before.blocks, OneTypePerLiteral block.instrs) →
      after.IsTyped types ∧ List.Forall₂ (Entry.KeepsTypes types) before.body after.body)
      program.functions simplified.functions := by
  refine (forall₂_of_numberValues succeeded).imp
    fun before after numbered types typed declared => ?_
  have keeps := typed.keepsTypes_numberValues declared numbered
  have same : after.params = before.params := by
    rw [(Simplified.of_function numbered).2]
  exact ⟨typed.of_keepsTypes same keeps, keeps⟩

/-- Types of variables: `n` is an integer, and all others are floats. -/
def mixedTypes (name : String) : Ty :=
  if name = "n" then .int else .float

/-- A function that declares one literal at two types, in two blocks. -/
def unitsApart : Function where
  name := "main"
  body := [
    .instr (.const "n" .int (.int 1) none),
    .instr (.effect .print { args := ["n"] } none),
    .label "next" none,
    .instr (.const "x" .float (.int 1) none),
    .instr (.const "y" .float (.int 1) none),
    .instr (.value .fadd "z" .float { args := ["x", "y"] } none),
    .instr (.effect .print { args := ["z"] } none)]

/-- A function that declares one literal at two types, in one block. -/
def unitsTogether : Function where
  name := "main"
  body := [
    .instr (.const "n" .int (.int 1) none),
    .instr (.const "x" .float (.int 1) none),
    .instr (.value .fadd "y" .float { args := ["x", "x"] } none),
    .instr (.effect .print { args := ["y"] } none)]

/-- Addition of floats is well-typed. -/
theorem isTyped_fadd {dest left right : String} {pos : Option Position}
    (declared : mixedTypes dest = .float) (first : mixedTypes left = .float)
    (second : mixedTypes right = .float) :
    (Instruction.value .fadd dest .float { args := [left, right] } pos).IsTyped mixedTypes := by
  refine ⟨declared, fun signature known => ?_⟩
  cases known
  refine ⟨.float, ?_, fun slot isResult => by cases isResult; rfl⟩
  rw [List.map_cons, List.map_cons, first, second]
  rfl

/-- Value numbering keeps the types of the function that declares one literal at two types in two
blocks. -/
theorem numberValues_keepsTypes_unitsApart :
    unitsApart.IsTyped mixedTypes ∧ (∀ block ∈ unitsApart.blocks, OneTypePerLiteral block.instrs) ∧
      ∃ simplified, ({ functions := [unitsApart] } : Program).numberValues {} = .ok simplified ∧
        List.Forall₂ (fun before after => after.IsTyped mixedTypes ∧
          List.Forall₂ (Entry.KeepsTypes mixedTypes) before.body after.body)
          [unitsApart] simplified.functions := by
  have typed : unitsApart.IsTyped mixedTypes := by
    refine ⟨nofun, fun instr member => ?_⟩
    simp only [unitsApart, List.mem_cons, Entry.instr.injEq, reduceCtorEq, List.not_mem_nil,
      or_false, false_or] at member
    rcases member with rfl | rfl | rfl | rfl | rfl | rfl
    · rfl
    · trivial
    · rfl
    · rfl
    · exact isTyped_fadd rfl rfl rfl
    · trivial
  have declared : ∀ block ∈ unitsApart.blocks, OneTypePerLiteral block.instrs := by
    unfold OneTypePerLiteral
    decide +kernel
  obtain ⟨simplified, succeeded⟩ :=
    numberValues_succeeds { functions := [unitsApart] } {} (by decide)
  have kept := numberValues_keepsTypes _ simplified {} succeeded
  refine ⟨typed, declared, simplified, succeeded, ?_⟩
  have known : ∀ function ∈ [unitsApart], function.IsTyped mixedTypes ∧
      ∀ block ∈ function.blocks, OneTypePerLiteral block.instrs := by
    intro function member
    rw [List.mem_singleton.1 member]
    exact ⟨typed, declared⟩
  exact ((List.forall₂_and_left _ _).2 ⟨known, kept⟩).imp fun before after both =>
    both.2 mixedTypes both.1.1 both.1.2

/-- What value numbering makes of the function that declares one literal at two types in one
block. -/
def unitsConfused : Function where
  name := "main"
  body := [
    .instr (.const "n" .int (.int 1) none),
    .instr (.const "x" .float (.int 1) none),
    .instr (.value .fadd "y" .float { args := ["n", "n"] } none),
    .instr (.effect .print { args := ["y"] } none)]

/-- Value numbering of a function that declares one literal at two types in one block makes an
addition of floats read an integer, so that the function is not well-typed any more. -/
theorem unitsTogether_losesTypes :
    unitsTogether.IsTyped mixedTypes ∧
      ({ functions := [unitsTogether] } : Program).numberValues {} =
        .ok { functions := [unitsConfused] } ∧
      ¬unitsConfused.IsTyped mixedTypes := by
  refine ⟨⟨nofun, fun instr member => ?_⟩, ?_, fun typed => ?_⟩
  · simp only [unitsTogether, List.mem_cons, Entry.instr.injEq, List.not_mem_nil,
      or_false] at member
    rcases member with rfl | rfl | rfl | rfl
    · rfl
    · rfl
    · exact isTyped_fadd rfl rfl rfl
    · trivial
  · cbv
  · have added : Entry.instr (.value .fadd "y" .float { args := ["n", "n"] } none) ∈
        unitsConfused.body := by decide
    obtain ⟨-, shaped⟩ := typed.body _ added
    obtain ⟨variableType, args, -⟩ := shaped _ rfl
    cases args

end Midend
