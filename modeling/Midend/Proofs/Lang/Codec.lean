import Midend.Lang.Decode
import Midend.Lang.Encode
import Midend.Proofs.Json.Values

/-!
# Entries are encoded and decoded

An entry of a function body is recognised again in the value that it is encoded as, unless it is a
constant with a floating-point literal. How deep a value nests tells how many pointers the type of
an entry may have.
-/

namespace Midend.Lang

open Json (Value)

/-- A list for a member that is left out when the list is empty. -/
def list? (items : List Value) : Option Value :=
  if items.isEmpty then none else some (.list items)

/-- A list that may be empty is a member that may be absent. -/
theorem membersOf_eq (name : String) (items : List Value) :
    membersOf name items = member? name (list? items) := by
  cases items <;> rfl

/-- Something absent is no member. -/
@[simp] theorem member?_none (name : String) : member? name none = [] :=
  rfl

/-- Something that is there is a member. -/
@[simp] theorem member?_some (name : String) (value : Value) :
    member? name (some value) = [(name, value)] :=
  rfl

/-- A member that may be absent is found under its own name only. -/
@[simp] theorem filter_member? (name other : String) (value? : Option Value) :
    (member? name value?).filter (fun member => member.1 == other) =
      if name = other then member? name value? else [] := by
  by_cases same : name = other
  · cases value? <;> simp [member?, same]
  · cases value? <;> simp [member?, same]

/-- The one member of a name is found when the members of that name are one that may be absent. -/
theorem uniqueMember_eq {members : List (String × Value)} {name : String} {value? : Option Value}
    (found : (members.filter fun member => member.1 == name) = member? name value?) :
    uniqueMember members name = some value? := by
  rw [uniqueMember, found]
  cases value? <;> rfl

/-- A natural number of thirty-two bits is decoded. -/
theorem uint32?_encode (number : UInt32) : uint32? (.integer number.toNat) = some number := by
  have inRange : (decide (0 ≤ (number.toNat : Int)) &&
      decide ((number.toNat : Int) < UInt32.size)) = true := by
    simpa using number.toNat_lt_size
  rw [uint32?, if_pos inRange]
  simp

/-- A position is decoded. -/
theorem position?_encode (pos : Position) : position? pos.encode = some pos := by
  have fields : fields? ["row", "col"] pos.encode =
      some [some (.integer pos.row.toNat), some (.integer pos.col.toNat)] := by
    simp [fields?, Position.encode, uniqueMember]
  rw [position?, Option.bind_eq_bind, fields, Option.bind_some]
  dsimp only
  rw [uint32?_encode, uint32?_encode, Option.bind_eq_bind, Option.bind_some, Option.bind_some]
  rfl

/-- A position that may be absent is decoded. -/
theorem pos?_encode (pos : Option Position) : pos? (pos.map Position.encode) = some pos := by
  cases pos with
  | none => rfl
  | some pos =>
    change (position? pos.encode).map some = some (some pos)
    rw [position?_encode]
    rfl

/-- Names are decoded, also when there are none. -/
theorem texts?_encode (names : List String) : texts? (list? (names.map .text)) = some names := by
  have all (names : List String) : (names.map Value.text).mapM text? = some names := by
    induction names with
    | nil => rfl
    | cons name names ih => simp [text?, ih]
  cases names with
  | nil => rfl
  | cons name names => exact all (name :: names)

/-- A type is decoded. -/
theorem ty?_encode (ty : Ty) : ty? ty.encode = some ty := by
  induction ty with
  | ptr target ih =>
    rw [Ty.encode, ty?.eq_def]
    simp [ih]
  | _ => rfl

/-- A literal that can be written exactly: any but a floating-point number. -/
def Literal.IsExact : Literal → Prop
  | .float _ => False
  | .int _ | .bool _ | .char _ => True

/-- A literal that is no floating-point number is decoded. -/
theorem literal?_encode {literal : Literal} (exact : literal.IsExact) :
    literal? literal.encode = some literal := by
  cases literal with
  | float => exact exact.elim
  | bool value => rfl
  | char value => rw [Literal.encode, literal?, Char.toString_eq_singleton, String.toList_singleton]
  | int value =>
    have low := value.minValue_le_toInt
    have high := value.toInt_le
    rw [Literal.encode, literal?, if_pos (by simpa using ⟨low, high⟩), Int64.ofInt_toInt]

/-- The members that every instruction may have. -/
theorem members_eq (operands : Operands) :
    operands.members = member? "args" (list? (operands.args.map .text)) ++
      member? "funcs" (list? (operands.funcs.map .text)) ++
      member? "labels" (list? (operands.labels.map .text)) := by
  rw [Operands.members, membersOf_eq, membersOf_eq, membersOf_eq]

/-- The values of fields are those found for their names, one after the other. -/
theorem fields?_cons {members : List (String × Value)} {name : String} {names : List String}
    {value? : Option Value} {values : List (Option Value)}
    (found : (members.filter fun member => member.1 == name) = member? name value?)
    (others : fields? names (.object members) = some values) :
    fields? (name :: names) (.object members) = some (value? :: values) := by
  rw [fields?] at others ⊢
  rw [List.mapM_cons, uniqueMember_eq found, others]
  rfl

/-- A label is decoded. -/
theorem label?_encode (name : String) (pos : Option Position) :
    label? (Entry.label name pos).encode = some (.label name pos) := by
  have fields : fields? ["label", "pos"] (Entry.label name pos).encode =
      some [some (.text name), pos.map Position.encode] := by
    refine fields?_cons ?_ (fields?_cons ?_ rfl)
    all_goals simp [posMember]
  rw [label?, fields]
  simp [text?, pos?_encode]

/-- An instruction is no label. -/
theorem label?_instruction (instr : Instruction) : label? instr.encode = none := by
  have fields : fields? ["label", "pos"] instr.encode =
      some [none, instr.pos?.map Position.encode] := by
    cases instr with
    | const =>
      refine fields?_cons ?_ (fields?_cons ?_ rfl)
      all_goals simp [posMember, Instruction.pos?]
    | value =>
      refine fields?_cons ?_ (fields?_cons ?_ rfl)
      all_goals simp [posMember, members_eq, Instruction.pos?]
    | effect =>
      refine fields?_cons ?_ (fields?_cons ?_ rfl)
      all_goals simp [posMember, members_eq, Instruction.pos?]
  rw [label?, fields]
  rfl

/-- A constant is decoded. -/
theorem const?_encode (dest : String) (ty : Ty) {literal : Literal} (exact : literal.IsExact)
    (pos : Option Position) :
    const? (Instruction.const dest ty literal pos).encode = some (.const dest ty literal pos) := by
  have fields : fields? ["op", "dest", "type", "value", "pos"]
      (Instruction.const dest ty literal pos).encode =
        some [some (.text "const"), some (.text dest), some ty.encode, some literal.encode,
          pos.map Position.encode] := by
    refine fields?_cons ?_ (fields?_cons ?_ (fields?_cons ?_ (fields?_cons ?_
      (fields?_cons ?_ rfl))))
    all_goals simp [posMember]
  rw [const?, fields]
  simp [name?, text?, ty?_encode, literal?_encode exact, pos?_encode]

/-- An operation is no constant. -/
theorem const?_value (op : ValueOp) (dest : String) (ty : Ty) (operands : Operands)
    (pos : Option Position) : const? (Instruction.value op dest ty operands pos).encode = none := by
  have fields : fields? ["op", "dest", "type", "value", "pos"]
      (Instruction.value op dest ty operands pos).encode =
        some [some (.text op.name), some (.text dest), some ty.encode, none,
          pos.map Position.encode] := by
    refine fields?_cons ?_ (fields?_cons ?_ (fields?_cons ?_ (fields?_cons ?_
      (fields?_cons ?_ rfl))))
    all_goals simp [posMember, members_eq]
  rw [const?, fields]
  rfl

/-- A value operation is decoded. -/
theorem valueOp?_encode (op : ValueOp) (dest : String) (ty : Ty) (operands : Operands)
    (pos : Option Position) :
    valueOp? (Instruction.value op dest ty operands pos).encode =
      some (.value op dest ty operands pos) := by
  have fields : fields? ["op", "dest", "type", "args", "funcs", "labels", "pos"]
      (Instruction.value op dest ty operands pos).encode =
        some [some (.text op.name), some (.text dest), some ty.encode,
          list? (operands.args.map .text), list? (operands.funcs.map .text),
          list? (operands.labels.map .text), pos.map Position.encode] := by
    refine fields?_cons ?_ (fields?_cons ?_ (fields?_cons ?_ (fields?_cons ?_ (fields?_cons ?_
      (fields?_cons ?_ (fields?_cons ?_ rfl))))))
    all_goals simp [posMember, members_eq]
  rw [valueOp?, fields]
  simp [name?, text?, ty?_encode, texts?_encode, pos?_encode, ValueOp.ofName?_name]

/-- An effect operation is no constant. -/
theorem const?_effect (op : EffectOp) (operands : Operands) (pos : Option Position) :
    const? (Instruction.effect op operands pos).encode = none := by
  have fields : fields? ["op", "dest", "type", "value", "pos"]
      (Instruction.effect op operands pos).encode =
        some [some (.text op.name), none, none, none, pos.map Position.encode] := by
    refine fields?_cons ?_ (fields?_cons ?_ (fields?_cons ?_ (fields?_cons ?_
      (fields?_cons ?_ rfl))))
    all_goals simp [posMember, members_eq]
  rw [const?, fields]
  rfl

/-- An effect operation is no value operation. -/
theorem valueOp?_effect (op : EffectOp) (operands : Operands) (pos : Option Position) :
    valueOp? (Instruction.effect op operands pos).encode = none := by
  have fields : fields? ["op", "dest", "type", "args", "funcs", "labels", "pos"]
      (Instruction.effect op operands pos).encode =
        some [some (.text op.name), none, none, list? (operands.args.map .text),
          list? (operands.funcs.map .text), list? (operands.labels.map .text),
          pos.map Position.encode] := by
    refine fields?_cons ?_ (fields?_cons ?_ (fields?_cons ?_ (fields?_cons ?_ (fields?_cons ?_
      (fields?_cons ?_ (fields?_cons ?_ rfl))))))
    all_goals simp [posMember, members_eq]
  rw [valueOp?, fields]
  rfl

/-- An effect operation is decoded. -/
theorem effectOp?_encode (op : EffectOp) (operands : Operands) (pos : Option Position) :
    effectOp? (Instruction.effect op operands pos).encode = some (.effect op operands pos) := by
  have fields : fields? ["op", "args", "funcs", "labels", "pos"]
      (Instruction.effect op operands pos).encode =
        some [some (.text op.name), list? (operands.args.map .text),
          list? (operands.funcs.map .text), list? (operands.labels.map .text),
          pos.map Position.encode] := by
    refine fields?_cons ?_ (fields?_cons ?_ (fields?_cons ?_ (fields?_cons ?_
      (fields?_cons ?_ rfl))))
    all_goals simp [posMember, members_eq]
  rw [effectOp?, fields]
  simp [name?, texts?_encode, pos?_encode, EffectOp.ofName?_name]

/-- An entry that can be written exactly: any but a constant with a floating-point literal. -/
def Entry.IsExact : Entry → Prop
  | .instr (.const _ _ literal _) => literal.IsExact
  | .label .. | .instr (.value ..) | .instr (.effect ..) => True

/-- An entry without a floating-point literal is decoded from what it is encoded as. -/
theorem decode_encode {entry : Entry} (exact : entry.IsExact) :
    Entry.decode entry.encode = some entry := by
  cases entry with
  | label name pos => simp [Entry.decode, label?_encode]
  | instr instr =>
    have decoded : Instruction.decode instr.encode = some instr := by
      cases instr with
      | const dest ty literal pos => simp [Instruction.decode, const?_encode dest ty exact pos]
      | value => simp [Instruction.decode, const?_value, valueOp?_encode]
      | effect => simp [Instruction.decode, const?_effect, valueOp?_effect, effectOp?_encode]
    simp [Entry.decode, Entry.encode, label?_instruction, decoded]

end Midend.Lang
