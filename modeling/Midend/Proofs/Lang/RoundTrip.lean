import Midend.Proofs.Json.Records
import Midend.Proofs.Lang.Nesting

/-!
# Programs are written and read back

The JSON text of a program without floating-point literals is read back as the program, provided its
types fit the nesting limit. Every program that was read from a text fits, whatever shape the text
had, so that such a program survives being written and read again.
-/

namespace Midend.Lang

open Json (Value IsItem Visits)

/-- A plain type is read back from its name. -/
theorem isItem_plainTy {name : String} {ty : Ty} (plain : namedTy name = .ok ty)
    (depth level : Nat) : IsItem (Ty.read depth) level (.text name) ty := by
  refine Json.isItem_of_text fun input behind rest stands read => ?_
  rw [Ty.read.eq_def, stands]
  exact bind_eq_ok_iff.2 ⟨_, read, bind_eq_ok_iff.2 ⟨ty, plain, rfl⟩⟩

/-- A pointer type is read back from the object around the type that it points to. -/
theorem isItem_ptr {target : Ty} {depth level : Nat}
    (isItem : IsItem (Ty.read depth) (level + 1) target.encode target) :
    IsItem (Ty.read (depth + 1)) level (Ty.ptr target).encode (.ptr target) := by
  have written : Json.writePretty level (Ty.ptr target).encode =
      '\x7b' :: (Json.newline (level + 1) ++ (Json.writeText "ptr" ++ (':' :: ' ' ::
        (Json.writePretty (level + 1) target.encode ++ (Json.newline level ++ ['\x7d']))))) := by
    simp [Ty.encode, Json.writePretty, Json.writeMembers]
  refine Json.isItem_of_written written (by decide) fun input rest stands _ => ?_
  rw [Ty.read.eq_def, stands]
  simp only [List.append_assoc, List.cons_append]
  have key (behind : List Char) : readTyKey (Json.newline (level + 1) ++
      (Json.writeText "ptr" ++ behind)) = .ok ("ptr", behind) := by
    unfold readTyKey
    rw [Json.skipBlanks_newline_writeText]
    exact Json.readText_written "ptr" behind
  have closes : Json.skipBlanks (Json.newline level ++ ('\x7d' :: rest)) = '\x7d' :: rest := by
    rw [Json.skipBlanks_newline]
    rfl
  obtain ⟨start, passed, read⟩ :=
    isItem.behindColon (Json.endsNumber_newline level ('\x7d' :: rest))
  refine bind_eq_ok_iff.2 ⟨_, key _, ?_⟩
  have pointer : plainTy? "ptr" = none := by simp [plainTy?]
  simp only [pointer, if_true]
  exact bind_eq_ok_iff.2 ⟨start, passed, bind_eq_ok_iff.2 ⟨_, read,
    bind_eq_ok_iff.2 ⟨rest, Json.closeObject_close closes, rfl⟩⟩⟩

/-- A type with no more pointers than brackets may be opened is read back. -/
theorem isItem_ty {ty : Ty} {depth : Nat} (bound : ty.pointers ≤ depth) (level : Nat) :
    IsItem (Ty.read depth) level ty.encode ty := by
  induction ty generalizing depth level with
  | int => exact isItem_plainTy rfl depth level
  | bool => exact isItem_plainTy rfl depth level
  | float => exact isItem_plainTy rfl depth level
  | char => exact isItem_plainTy rfl depth level
  | ptr target ih =>
    obtain ⟨depth, rfl⟩ := Nat.exists_eq_succ_of_ne_zero (Nat.ne_of_gt (Nat.zero_lt_of_lt bound))
    exact isItem_ptr (ih (Nat.le_of_succ_le_succ bound) (level + 1))

/-- A type does not begin like `null`. -/
theorem head?_ty_ne (ty : Ty) (level : Nat) :
    (Json.writePretty level ty.encode).head? ≠ some 'n' := by
  cases ty with
  | ptr target => simp [Ty.encode, Json.writePretty]
  | _ => simp [Ty.encode, Json.writePretty, Json.writeScalar, Json.writeText]

/-- A position is read back. -/
theorem isItem_position (pos : Position) (depth level : Nat) :
    IsItem (Position.record.read (depth + 1)) level pos.encode pos := by
  have row : Visits (Position.record.readMember depth) (level + 1) (default, [])
      [("row", .integer pos.row.toNat)] ({ (default : Position) with row := pos.row }, ["row"]) :=
    Json.visits_member rfl List.not_mem_nil
      (Json.isItem_putting (Json.isItem_readUInt32 depth (level + 1) pos.row) default)
  have col : Visits (Position.record.readMember depth) (level + 1)
      ({ (default : Position) with row := pos.row }, ["row"])
      [("col", .integer pos.col.toNat)] (pos, ["col", "row"]) :=
    Json.visits_member rfl (by decide)
      (Json.isItem_putting (Json.isItem_readUInt32 depth (level + 1) pos.col) _)
  exact Json.isItem_record (row.append col) (by decide)

/-- A parameter is read back. -/
theorem isItem_parameter {param : Parameter} {depth : Nat} (bound : param.ty.pointers ≤ depth)
    (level : Nat) : IsItem (Parameter.record.read (depth + 1)) level param.encode param := by
  have name : Visits (Parameter.record.readMember depth) (level + 1) (default, [])
      [("name", .text param.name)]
      ({ (default : Parameter) with name := param.name }, ["name"]) :=
    Json.visits_member rfl List.not_mem_nil
      (Json.isItem_putting (Json.isItem_readString depth (level + 1) param.name) default)
  have ty : Visits (Parameter.record.readMember depth) (level + 1)
      ({ (default : Parameter) with name := param.name }, ["name"])
      [("type", param.ty.encode)] (param, ["type", "name"]) :=
    Json.visits_member rfl (by decide) (Json.isItem_putting (isItem_ty bound (level + 1)) _)
  exact Json.isItem_record (name.append ty) (by decide)

/-- An entry without a floating-point literal is read back. -/
theorem isItem_entry {entry : Entry} (exact : entry.IsExact) {depth : Nat}
    (bound : entry.pointers ≤ depth) (room : 0 < depth) (level : Nat) :
    IsItem (Entry.read (depth + 1)) level entry.encode entry := by
  have isItem := Json.isItem_readValue (entry.nests_encode exact bound room) level
  refine ⟨isItem.begins, fun input rest stands ends => ?_⟩
  refine bind_eq_ok_iff.2 ⟨_, isItem.reads input rest stands ends, ?_⟩
  simp only [decode_encode exact]

/-- A list that may be left out is empty if it is. -/
theorem eq_nil_of_list?_eq_none {α : Type} {encode : α → Value} {items : List α}
    (absent : list? (items.map encode) = none) : items = [] := by
  cases items with
  | nil => rfl
  | cons => cases absent

/-- A list that is there is read back when its items are. -/
theorem isItem_of_list? {α : Type} {encode : α → Value} {item : Json.Reader α} {items : List α}
    {depth level : Nat} (areItems : ∀ one ∈ items, IsItem (item depth) (level + 1) (encode one) one)
    {value : Value} (present : list? (items.map encode) = some value) :
    IsItem (Json.readList item (depth + 1)) level value items := by
  have same : value = .list (items.map encode) := by
    cases items with
    | nil => cases present
    | cons => exact (Option.some.inj present).symm
  rw [same]
  exact Json.isItem_readList_map areItems

/-- What may be absent is read back with its reader if it is there. -/
theorem isItem_of_map {α : Type} {encode : α → Value} {reader : Json.Reader α} {given? : Option α}
    {depth level : Nat}
    (isItem : ∀ given ∈ given?, IsItem (reader depth) level (encode given) given)
    (notNull : ∀ given ∈ given?, (Json.writePretty level (encode given)).head? ≠ some 'n')
    {value : Value} (present : given?.map encode = some value) :
    IsItem (Json.readOptional reader depth) level value given? := by
  obtain ⟨given, same, rfl⟩ := Option.map_eq_some_iff.1 present
  rw [same]
  exact Json.isItem_readOptional (isItem given same) (notNull given same)

/-! ## Functions

Behind each member of a function, the draft of it has one more field, and the names of the members
that were met include the ones met before. -/

section Functions

variable {function : Function} {depth : Nat} (level : Nat) (draft : Function) {met : List String}

/-- The parameters of a function are put into a draft that has none. -/
theorem exists_visits_params (bound : ∀ param ∈ function.params, param.ty.pointers ≤ depth)
    (fresh : "args" ∉ met) (empty : draft.params = []) :
    ∃ later, Visits (Function.record.readMember (depth + 2)) level (draft, met)
        (membersOf "args" (function.params.map Parameter.encode))
        ({ draft with params := function.params }, later) ∧
      met ⊆ later ∧ later ⊆ "args" :: met := by
  rw [membersOf_eq]
  refine Json.exists_visits_member? rfl fresh (fun absent => ?_) fun value present => ?_
  · rw [eq_nil_of_list?_eq_none absent, ← empty]
  · refine Json.isItem_putting (isItem_of_list? (fun param member => ?_) present) draft
    exact isItem_parameter (bound param member) _

/-- The body of a function is put into a draft. -/
theorem visits_body (bound : ∀ entry ∈ function.body, entry.pointers ≤ depth) (room : 0 < depth)
    (exact : ∀ entry ∈ function.body, entry.IsExact) (fresh : "instrs" ∉ met) :
    Visits (Function.record.readMember (depth + 2)) level (draft, met)
      [("instrs", .list (function.body.map Entry.encode))]
      ({ draft with body := function.body }, "instrs" :: met) := by
  have entries : ∀ entry ∈ function.body,
      IsItem (Entry.read (depth + 1)) (level + 1) entry.encode entry := fun entry member =>
    isItem_entry (exact entry member) (bound entry member) room _
  exact Json.visits_member rfl fresh (Json.isItem_putting (Json.isItem_readList_map entries) draft)

/-- The type that a function returns is put into a draft that has none. -/
theorem exists_visits_returns (bound : ∀ ty ∈ function.returns, ty.pointers ≤ depth)
    (fresh : "type" ∉ met) (empty : draft.returns = none) :
    ∃ later, Visits (Function.record.readMember depth) level (draft, met)
        (member? "type" (function.returns.map Ty.encode))
        ({ draft with returns := function.returns }, later) ∧ met ⊆ later ∧
          later ⊆ "type" :: met := by
  refine Json.exists_visits_member? rfl fresh (fun absent => ?_) fun value present => ?_
  · rw [Option.map_eq_none_iff.1 absent, ← empty]
  · refine Json.isItem_putting (isItem_of_map (fun ty isTy => ?_) (fun ty _ => ?_) present) draft
    · exact isItem_ty (bound ty isTy) _
    · exact head?_ty_ne ty _

/-- The position of a function is put into a draft that has none. -/
theorem exists_visits_pos (fresh : "pos" ∉ met) (empty : draft.pos = none) :
    ∃ later, Visits (Function.record.readMember (depth + 1)) level (draft, met)
        (posMember function.pos) ({ draft with pos := function.pos }, later) ∧ met ⊆ later := by
  obtain ⟨later, visits, kept, -⟩ : ∃ later, Visits (Function.record.readMember (depth + 1)) level
      (draft, met) (posMember function.pos) ({ draft with pos := function.pos }, later) ∧
        met ⊆ later ∧ later ⊆ "pos" :: met := by
    refine Json.exists_visits_member? rfl fresh (fun absent => ?_) fun value present => ?_
    · rw [Option.map_eq_none_iff.1 absent, ← empty]
    · refine Json.isItem_putting (isItem_of_map (fun pos _ => ?_) (fun pos _ => ?_) present) draft
      · exact isItem_position pos _ _
      · simp [Position.encode, Json.writePretty]
  exact ⟨later, visits, kept⟩

/-- A function whose types fit, and without floating-point literals, is read back. -/
theorem isItem_function (fits : function.TypesFit (depth + 4))
    (exact : ∀ entry ∈ function.body, entry.IsExact) :
    IsItem (Function.record.read (depth + 4)) level function.encode function := by
  have name : Visits (Function.record.readMember (depth + 3)) (level + 1) ({ name := "" }, [])
      [("name", .text function.name)] ({ name := function.name }, ["name"]) :=
    Json.visits_member rfl List.not_mem_nil
      (Json.isItem_putting (Json.isItem_readString _ (level + 1) function.name) _)
  have fitParams : ∀ param ∈ function.params, param.ty.pointers ≤ depth + 1 := fun param member =>
    Nat.le_of_add_le_add_right (fits.params param member)
  obtain ⟨metParams, params, keptParams, boundParams⟩ := exists_visits_params (level + 1)
    { name := function.name } fitParams (by decide : "args" ∉ ["name"]) rfl
  have fitBody : ∀ entry ∈ function.body, entry.pointers ≤ depth + 1 := fun entry member =>
    Nat.le_of_add_le_add_right (fits.body entry member)
  have body := visits_body (level + 1) { name := function.name, params := function.params } fitBody
    (Nat.succ_pos depth) exact fun met => absurd (boundParams met) (by decide)
  have boundBody := List.cons_subset_cons "instrs" boundParams
  have fitReturns : ∀ ty ∈ function.returns, ty.pointers ≤ depth + 3 := fun ty isTy =>
    Nat.le_of_add_le_add_right (fits.returns ty isTy)
  obtain ⟨metReturns, returns, keptReturns, boundReturns⟩ := exists_visits_returns (level + 1)
    { name := function.name, params := function.params, body := function.body } fitReturns
    (fun met => absurd (boundBody met) (by decide)) rfl
  have fresh : "pos" ∉ metReturns := fun met => absurd
    (List.Subset.trans boundReturns (List.cons_subset_cons "type" boundBody) met) (by decide)
  obtain ⟨metPos, pos, keptPos⟩ : ∃ met, Visits (Function.record.readMember (depth + 3)) (level + 1)
      ({ function with pos := none }, metReturns) (posMember function.pos) (function, met) ∧
        metReturns ⊆ met :=
    exists_visits_pos (level + 1) { function with pos := none } fresh rfl
  -- Only the name is required; whichever members were written, it was met first and is kept.
  have named : "name" ∈ metPos :=
    keptPos (keptReturns (List.mem_cons_of_mem _ (keptParams List.mem_cons_self)))
  have complete : Function.record.missing? metPos = none := by
    simp [Json.Record.missing?, Function.record, Json.Field.mandatory, Json.Field.optional,
      Json.Field.putting, named]
  exact Json.isItem_record ((((name.append params).append body).append returns).append pos) complete

end Functions

/-- A program whose types fit, and without floating-point literals, is read back. -/
theorem isItem_program {program : Program} {depth : Nat} (fits : program.TypesFit (depth + 6))
    (exact : ∀ function ∈ program.functions, ∀ entry ∈ function.body, entry.IsExact)
    (level : Nat) :
    IsItem (Program.record.read (depth + 6)) level program.encode program := by
  have functions : ∀ function ∈ program.functions,
      IsItem (Function.record.read (depth + 4)) (level + 2) function.encode function :=
    fun function member => isItem_function _ (fits function member) (exact function member)
  have visits : Visits (Program.record.readMember (depth + 5)) (level + 1)
      (Program.record.blank, [])
      [("functions", .list (program.functions.map Function.encode))] (program, ["functions"]) :=
    Json.visits_member rfl List.not_mem_nil
      (Json.isItem_putting (Json.isItem_readList_map functions) Program.record.blank)
  exact Json.isItem_record visits (by decide)

/-- A program that was read from a text has types that fit the nesting limit. -/
theorem typesFit_of_ofJson {text : String} {program : Program}
    (loaded : Program.ofJson text = .ok program) : program.TypesFit Json.nestingLimit := by
  unfold Program.ofJson at loaded
  split at loaded
  next finished =>
    cases loaded
    obtain ⟨⟨_, rest⟩, read, finished⟩ := bind_eq_ok_iff.1 finished
    dsimp only at finished
    split at finished
    · cases finished
      exact gives_program _ _ _ _ read
    · cases finished
  next => cases loaded

/-- The constants of a program have no floating-point literals. -/
def Program.NoFloats (program : Program) : Prop :=
  ∀ function ∈ program.functions, ∀ dest ty value pos,
    Entry.instr (.const dest ty (.float value) pos) ∉ function.body

/-- A program whose types fit the nesting limit, and without floating-point literals, is the one
that its JSON text holds. -/
theorem ofJson_toJson_of_typesFit {program : Program}
    (fits : program.TypesFit Json.nestingLimit) (floatless : program.NoFloats) :
    Program.ofJson program.toJson = .ok program := by
  have exact : ∀ function ∈ program.functions, ∀ entry ∈ function.body, entry.IsExact := by
    intro function member entry among
    cases entry with
    | label => trivial
    | instr instr =>
      cases instr with
      | value => trivial
      | effect => trivial
      | const dest ty literal pos =>
        cases literal with
        | float value => exact absurd among (floatless function member dest ty value pos)
        | _ => trivial
  have isItem : IsItem (Program.record.read Json.nestingLimit) 0 program.encode program :=
    isItem_program fits exact 0
  have read : Program.record.read Json.nestingLimit (Json.writePretty 0 program.encode ++ []) =
      .ok (program, []) := isItem.read nofun
  rw [List.append_nil] at read
  have finished : Json.finish (Program.record.read Json.nestingLimit program.toJson.toList) =
      .ok program := by
    rw [Program.toJson, Value.pretty, String.toList_ofList, Json.finish, read]
    rfl
  rw [Program.ofJson, finished]

/-- A program that was read from any JSON text, and without floating-point literals, is read again
from the JSON text that it is written as: functions, parameters, return types, and every entry with
its operation, what it names, its literal and its position. -/
theorem ofJson_toJson {text : String} {program : Program}
    (loaded : Program.ofJson text = .ok program) (floatless : program.NoFloats) :
    Program.ofJson program.toJson = .ok program :=
  ofJson_toJson_of_typesFit (typesFit_of_ofJson loaded) floatless

/-- A program written in unusual ways: lists in place of objects, an operation and a type as the key
of an object, escapes, and a value operation and an effect operation of the same name. -/
def oddlyWrittenText : String :=
  "[[[\"\\u0066\",[[\"p\",\x7b\"ptr\":\"int\"\x7d]],[[\"top\",[1,2]],[\"const\",\"c\",\"char\",\"\\n\"],
  [\x7b\"call\":null\x7d,[\"c\"]],[\"call\",\"x\",\x7b\"int\":null\x7d]]]]]"

/-- The program that `oddlyWrittenText` holds. -/
def oddlyWritten : Program where
  functions := [{
    name := "f"
    params := [⟨"p", .ptr .int⟩]
    body := [
      .label "top" (some ⟨1, 2⟩),
      .instr (.const "c" .char (.char '\n') none),
      .instr (.effect .call { args := ["c"] } none),
      .instr (.value .call "x" .int {} none)] }]

/-- The program that `oddlyWrittenText` holds is read again from the text that it is written as. -/
theorem ofJson_toJson_oddlyWritten :
    Program.ofJson oddlyWrittenText = .ok oddlyWritten ∧ oddlyWritten.NoFloats ∧
      Program.ofJson oddlyWritten.toJson = .ok oddlyWritten := by
  have loaded : Program.ofJson oddlyWrittenText = .ok oddlyWritten := by decide +kernel
  have floatless : oddlyWritten.NoFloats := by
    intro function member
    rw [List.mem_singleton.1 member]
    simp
  exact ⟨loaded, floatless, ofJson_toJson loaded floatless⟩

end Midend.Lang
