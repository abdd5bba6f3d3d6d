import Midend.Lang.Load
import Midend.Proofs.Execution
import Midend.Proofs.Lang.Codec
import Mathlib.Data.Option.Basic

/-!
# How deep programs nest

Only pointer types nest without bound. The types of a program that has been read have no more
pointers than brackets could be open where they stand, and a program with such types is encoded as a
value that nests no deeper than the one it was read from.
-/

namespace Midend.Lang

open Json (Value Gives)

/-- The number of pointers around a plain type. -/
def Ty.pointers : Ty → Nat
  | int | bool | float | char => 0
  | ptr target => target.pointers + 1

/-- A type is encoded with one bracket for each pointer. -/
theorem Ty.nests_encode {ty : Ty} {depth : Nat} (bound : ty.pointers ≤ depth) :
    ty.encode.Nests Value.IsExact depth := by
  induction ty generalizing depth with
  | ptr target ih =>
    obtain ⟨depth, rfl⟩ := Nat.exists_eq_succ_of_ne_zero (Nat.ne_of_gt (Nat.zero_lt_of_lt bound))
    refine .object fun member among => ?_
    rw [List.mem_singleton.1 among]
    exact ih (Nat.le_of_succ_le_succ bound)
  | _ => exact .scalar rfl trivial

/-- A plain type has no pointers. -/
theorem pointers_of_plainTy? {name : String} {ty : Ty} (plain : plainTy? name = some ty) :
    ty.pointers = 0 := by
  unfold plainTy? at plain
  split at plain <;> cases plain <;> rfl

/-- A type that is decoded has no more pointers than brackets are open. -/
theorem pointers_le_of_ty? {kind : Value → Prop} {value : Value} {depth : Nat}
    (nests : value.Nests kind depth) {ty : Ty} (decoded : ty? value = some ty) :
    ty.pointers ≤ depth := by
  induction nests generalizing ty with
  | @scalar depth value scalar _ =>
    cases value with
    | text name =>
      rw [pointers_of_plainTy? decoded]
      exact Nat.zero_le depth
    | list => cases scalar
    | object => cases scalar
    | _ => cases decoded
  | list => cases decoded
  | @object depth members _ ih =>
    rw [ty?.eq_def] at decoded
    split at decoded
    next same => cases same
    next name value same =>
      cases same
      split at decoded
      · obtain ⟨target, isTarget, rfl⟩ := Option.map_eq_some_iff.1 decoded
        exact Nat.succ_le_succ (ih _ List.mem_cons_self isTarget)
      · split at decoded
        · rw [pointers_of_plainTy? decoded]
          exact Nat.zero_le _
        · cases decoded
    next => cases decoded

/-- A type is read from a bare name without pointers, or with one bracket open from a plain name or
around another type. -/
theorem cases_of_ty {depth : Nat} {input : List Char} {ty : Ty} {rest : List Char}
    (read : Ty.read depth input = .ok (ty, rest)) :
    ty.pointers = 0 ∨ ∃ inner start target behind, depth = inner + 1 ∧
      Ty.read inner start = .ok (target, behind) ∧ ty = .ptr target := by
  rw [Ty.read.eq_def] at read
  split at read
  · cases read
  · obtain ⟨⟨name, behind⟩, -, read⟩ := bind_eq_ok_iff.1 read
    obtain ⟨plain, named, read⟩ := bind_eq_ok_iff.1 read
    cases read
    unfold namedTy at named
    split at named
    next known =>
      cases named
      exact .inl (pointers_of_plainTy? known)
    next =>
      split at named <;> cases named
  · cases depth with
    | zero => cases read
    | succ inner =>
      obtain ⟨⟨name, behind⟩, -, read⟩ := bind_eq_ok_iff.1 read
      dsimp only at read
      split at read
      next known =>
        obtain ⟨_, -, read⟩ := bind_eq_ok_iff.1 read
        obtain ⟨_, -, read⟩ := bind_eq_ok_iff.1 read
        obtain ⟨_, -, read⟩ := bind_eq_ok_iff.1 read
        cases read
        exact .inl (pointers_of_plainTy? known)
      next =>
        split at read
        · obtain ⟨start, -, read⟩ := bind_eq_ok_iff.1 read
          obtain ⟨⟨target, beyond⟩, isTarget, read⟩ := bind_eq_ok_iff.1 read
          obtain ⟨_, -, read⟩ := bind_eq_ok_iff.1 read
          cases read
          exact .inr ⟨inner, start, target, beyond, rfl, isTarget, rfl⟩
        · cases read
  · cases read

/-- A type is read with no more pointers than brackets may be opened. -/
theorem gives_ty (depth : Nat) : Gives (Ty.read depth) fun ty => ty.pointers ≤ depth := by
  induction depth with
  | zero =>
    intro input ty rest read
    rcases cases_of_ty read with plain | ⟨inner, _, _, _, deeper, -⟩
    · exact Nat.le_of_eq plain
    · cases deeper
  | succ depth ih =>
    intro input ty rest read
    rcases cases_of_ty read with plain | ⟨inner, _, _, _, deeper, isTarget, rfl⟩
    · omega
    · obtain rfl := Nat.succ.inj deeper
      exact Nat.succ_le_succ (ih _ _ _ isTarget)

/-- The number of pointers around the type of what an entry writes. -/
def Entry.pointers (entry : Entry) : Nat :=
  (entry.result?.map fun result => result.2.pointers).getD 0

/-- What is found under names are values of members. -/
theorem exists_member_of_mapM {members : List (String × Value)} {names : List String}
    {fields : List (Option Value)} (found : names.mapM (uniqueMember members) = some fields)
    {given : Value} (among : some given ∈ fields) : ∃ member ∈ members, member.2 = given := by
  induction names generalizing fields with
  | nil =>
    cases found
    cases among
  | cons name names ih =>
    rw [List.mapM_cons] at found
    obtain ⟨first, isFirst, found⟩ := Option.bind_eq_some_iff.1 found
    obtain ⟨others, areOthers, found⟩ := Option.bind_eq_some_iff.1 found
    cases found
    rcases List.mem_cons.1 among with rfl | later
    · rw [uniqueMember] at isFirst
      split at isFirst
      next => cases isFirst
      next key value single =>
        cases isFirst
        have member : (key, given) ∈ members.filter fun member => member.1 == name := by
          rw [single]
          exact List.mem_cons_self
        exact ⟨_, (List.mem_filter.1 member).1, rfl⟩
      next => cases isFirst
    · exact ih areOthers later

/-- The values of fields are parts of the value that they are taken from. -/
theorem nests_of_fields? {kind : Value → Prop} {names : List String} {value : Value} {depth : Nat}
    (nests : value.Nests kind depth) {fields : List (Option Value)}
    (found : fields? names value = some fields) :
    ∃ inner, depth = inner + 1 ∧ ∀ given, some given ∈ fields → given.Nests kind inner := by
  cases nests with
  | scalar scalar =>
    cases value with
    | list => cases scalar
    | object => cases scalar
    | _ => cases found
  | @list inner items within =>
    refine ⟨inner, rfl, fun given among => ?_⟩
    rw [fields?] at found
    split at found
    · cases found
      rcases List.mem_append.1 among with item | missing
      · obtain ⟨_, member, same⟩ := List.mem_map.1 item
        cases same
        exact within _ member
      · cases (List.mem_replicate.1 missing).2
    · cases found
  | @object inner members within =>
    refine ⟨inner, rfl, fun given among => ?_⟩
    obtain ⟨member, inside, rfl⟩ := exists_member_of_mapM found among
    exact within member inside

/-- The type of what an entry writes is decoded from a field of a value. -/
def TypedBy (value : Value) (entry : Entry) : Prop :=
  ∃ names fields, fields? names value = some fields ∧ ∀ result ∈ entry.result?,
    ∃ given, some given ∈ fields ∧ ty? given = some result.2

/-- A label has fields. -/
theorem typedBy_of_label? {value : Value} {entry : Entry} (decoded : label? value = some entry) :
    TypedBy value entry := by
  obtain ⟨fields, found, decoded⟩ := Option.bind_eq_some_iff.1 decoded
  refine ⟨_, fields, found, fun result isResult => ?_⟩
  split at decoded
  · simp only [Option.bind_eq_bind, Option.bind_eq_some_iff, Option.pure_def,
      Option.some.injEq] at decoded
    obtain ⟨name, -, pos, -, rfl⟩ := decoded
    cases isResult
  · cases decoded

/-- The type of a constant is one of its fields. -/
theorem typedBy_of_const? {value : Value} {instr : Instruction}
    (decoded : const? value = some instr) : TypedBy value (.instr instr) := by
  obtain ⟨fields, found, decoded⟩ := Option.bind_eq_some_iff.1 decoded
  refine ⟨_, fields, found, fun result isResult => ?_⟩
  split at decoded
  · obtain ⟨op, -, decoded⟩ := Option.bind_eq_some_iff.1 decoded
    split at decoded
    · simp only [Option.bind_eq_bind, Option.bind_eq_some_iff, Option.pure_def,
        Option.some.injEq] at decoded
      obtain ⟨dest, -, ty, isTy, literal, -, pos, -, rfl⟩ := decoded
      cases isResult
      exact ⟨_, by simp, isTy⟩
    · cases decoded
  · cases decoded

/-- The type of a value operation is one of its fields. -/
theorem typedBy_of_valueOp? {value : Value} {instr : Instruction}
    (decoded : valueOp? value = some instr) : TypedBy value (.instr instr) := by
  obtain ⟨fields, found, decoded⟩ := Option.bind_eq_some_iff.1 decoded
  refine ⟨_, fields, found, fun result isResult => ?_⟩
  split at decoded
  · simp only [Option.bind_eq_bind, Option.bind_eq_some_iff, Option.pure_def,
      Option.some.injEq] at decoded
    obtain ⟨name, -, op, -, args, -, funcs, -, labels, -, dest, -, ty, isTy, pos, -, rfl⟩ := decoded
    cases isResult
    exact ⟨_, by simp, isTy⟩
  · cases decoded

/-- An effect operation has fields. -/
theorem typedBy_of_effectOp? {value : Value} {instr : Instruction}
    (decoded : effectOp? value = some instr) : TypedBy value (.instr instr) := by
  obtain ⟨fields, found, decoded⟩ := Option.bind_eq_some_iff.1 decoded
  refine ⟨_, fields, found, fun result isResult => ?_⟩
  split at decoded
  · simp only [Option.bind_eq_bind, Option.bind_eq_some_iff, Option.pure_def,
      Option.some.injEq] at decoded
    obtain ⟨name, -, op, -, args, -, funcs, -, labels, -, pos, -, rfl⟩ := decoded
    cases isResult
  · cases decoded

/-- The type of an entry is one of the fields that it is decoded from. -/
theorem typedBy_of_decode {value : Value} {entry : Entry}
    (decoded : Entry.decode value = some entry) : TypedBy value entry := by
  rcases (Option.orElse_eq_some _ _ _).1 decoded with isLabel | ⟨-, decoded⟩
  · exact typedBy_of_label? isLabel
  · obtain ⟨instr, isInstr, rfl⟩ := Option.map_eq_some_iff.1 decoded
    rcases (Option.orElse_eq_some _ _ _).1 isInstr with isConst | ⟨-, isInstr⟩
    · exact typedBy_of_const? isConst
    · rcases (Option.orElse_eq_some _ _ _).1 isInstr with isValue | ⟨-, isEffect⟩
      · exact typedBy_of_valueOp? isValue
      · exact typedBy_of_effectOp? isEffect

/-- An entry that is decoded opens one bracket more than there are pointers around its type. -/
theorem pointers_lt_of_decode {kind : Value → Prop} {value : Value} {depth : Nat}
    (nests : value.Nests kind depth) {entry : Entry} (decoded : Entry.decode value = some entry) :
    entry.pointers < depth := by
  obtain ⟨names, fields, found, typed⟩ := typedBy_of_decode decoded
  obtain ⟨inner, rfl, within⟩ := nests_of_fields? nests found
  rw [Entry.pointers]
  cases result : entry.result? with
  | none => exact Nat.succ_pos inner
  | some result =>
    obtain ⟨given, among, isTy⟩ := typed _ result
    exact Nat.lt_succ_of_le (pointers_le_of_ty? (within given among) isTy)

/-- A member that may be absent is of a kind when its value is. -/
theorem forall_member? {kind : Value → Prop} {name : String} {value? : Option Value}
    (holds : ∀ value ∈ value?, kind value) : ∀ member ∈ member? name value?, kind member.2 := by
  cases value? with
  | none => exact nofun
  | some value =>
    intro member among
    rw [List.mem_singleton.1 among]
    exact holds value rfl

/-- A list of names opens one bracket. -/
theorem nests_list? (names : List String) {depth : Nat} (room : 0 < depth) :
    ∀ value ∈ list? (names.map .text), value.Nests Value.IsExact depth := by
  obtain ⟨depth, rfl⟩ := Nat.exists_eq_succ_of_ne_zero (Nat.ne_of_gt room)
  intro value isList
  cases names with
  | nil => cases isList
  | cons name names =>
    cases isList
    refine .list fun item among => ?_
    obtain ⟨name, -, rfl⟩ := List.mem_map.1 among
    exact .scalar rfl trivial

/-- A position opens one bracket. -/
theorem Position.nests_encode (pos : Position) {depth : Nat} (room : 0 < depth) :
    pos.encode.Nests Value.IsExact depth := by
  obtain ⟨depth, rfl⟩ := Nat.exists_eq_succ_of_ne_zero (Nat.ne_of_gt room)
  have exact (number : UInt32) : (Value.integer number.toNat).IsExact := by
    have bound := number.toNat_lt
    exact ⟨by omega, by omega⟩
  refine .object fun member among => ?_
  rcases List.mem_cons.1 among with rfl | among
  · exact .scalar rfl (exact pos.row)
  · rw [List.mem_singleton.1 among]
    exact .scalar rfl (exact pos.col)

/-- A position that may be absent opens no more than one bracket. -/
theorem nests_posMember (pos : Option Position) {depth : Nat} (room : 0 < depth) :
    ∀ member ∈ posMember pos, member.2.Nests Value.IsExact depth := by
  refine forall_member? fun value isPos => ?_
  obtain ⟨pos, -, rfl⟩ := Option.map_eq_some_iff.1 isPos
  exact pos.nests_encode room

/-- What an operation names opens no more than one bracket. -/
theorem Operands.nests_members (operands : Operands) {depth : Nat} (room : 0 < depth) :
    ∀ member ∈ operands.members, member.2.Nests Value.IsExact depth := by
  rw [members_eq]
  simp only [List.forall_mem_append]
  exact ⟨⟨forall_member? (nests_list? _ room), forall_member? (nests_list? _ room)⟩,
    forall_member? (nests_list? _ room)⟩

/-- A literal that can be written exactly is a scalar. -/
theorem Literal.nests_encode {literal : Literal} (exact : literal.IsExact) (depth : Nat) :
    literal.encode.Nests Value.IsExact depth := by
  cases literal with
  | float => exact exact.elim
  | bool => exact .scalar rfl trivial
  | char => exact .scalar rfl trivial
  | int value =>
    have low := value.le_toInt
    have high := value.toInt_lt
    exact .scalar rfl ⟨low, by omega⟩

/-- An entry opens one bracket more than there are pointers around its type, and two at most
otherwise. -/
theorem Entry.nests_encode {entry : Entry} (exact : entry.IsExact) {depth : Nat}
    (bound : entry.pointers ≤ depth) (room : 0 < depth) :
    entry.encode.Nests Value.IsExact (depth + 1) := by
  have text (text : String) : (Value.text text).Nests Value.IsExact depth := .scalar rfl trivial
  cases entry with
  | label name pos =>
    refine .object ?_
    simp only [List.forall_mem_append, List.forall_mem_singleton]
    exact ⟨text name, nests_posMember pos room⟩
  | instr instr =>
    cases instr with
    | const dest ty literal pos =>
      refine .object ?_
      simp only [List.forall_mem_append, List.forall_mem_cons]
      exact ⟨⟨text "const", text dest, ty.nests_encode bound, literal.nests_encode exact depth,
        nofun⟩, nests_posMember pos room⟩
    | value op dest ty operands pos =>
      refine .object ?_
      simp only [List.forall_mem_append, List.forall_mem_cons]
      exact ⟨⟨⟨text op.name, text dest, ty.nests_encode bound, nofun⟩,
        operands.nests_members room⟩, nests_posMember pos room⟩
    | effect op operands pos =>
      refine .object ?_
      simp only [List.forall_mem_append, List.forall_mem_singleton]
      exact ⟨⟨text op.name, operands.nests_members room⟩, nests_posMember pos room⟩

/-- The types of a function have no more pointers than brackets can be opened where they stand, of
those that are left in front of the function. -/
structure Function.TypesFit (depth : Nat) (function : Function) : Prop where
  params : ∀ param ∈ function.params, param.ty.pointers + 3 ≤ depth
  body : ∀ entry ∈ function.body, entry.pointers + 3 ≤ depth
  returns : ∀ ty ∈ function.returns, ty.pointers + 1 ≤ depth

/-- The types of a program have no more pointers than brackets can be opened where they stand. -/
def Program.TypesFit (depth : Nat) (program : Program) : Prop :=
  ∀ function ∈ program.functions, function.TypesFit (depth - 2)

/-- An entry is read with fewer pointers around its type than brackets may be opened. -/
theorem gives_entry (depth : Nat) :
    Gives (Entry.read depth) fun entry => entry.pointers < depth := by
  intro input entry rest read
  obtain ⟨⟨value, behind⟩, isValue, read⟩ := bind_eq_ok_iff.1 read
  have nests := Json.gives_readValue depth _ _ _ isValue
  dsimp only at read
  split at read
  next decoded =>
    cases read
    exact pointers_lt_of_decode nests decoded
  next => cases read

/-- A parameter is read with fewer pointers around its type than brackets may be opened. -/
theorem gives_parameter (depth : Nat) :
    Gives (Parameter.record.read depth) fun param => param.ty.pointers < depth := by
  refine Json.gives_record id fun inner same field member draft holds => ?_
  subst same
  simp only [Parameter.record, List.mem_cons, List.not_mem_nil, or_false] at member
  rcases member with rfl | rfl
  · refine Json.gives_putting (Json.gives_anything _) ?_ draft holds
    exact fun _ _ kept _ => kept
  · refine Json.gives_putting (gives_ty inner) ?_ draft holds
    exact fun _ _ _ bound => Nat.lt_succ_of_le bound

/-- A function is read with types that fit. -/
theorem gives_function (depth : Nat) :
    Gives (Function.record.read depth) (Function.TypesFit depth) := by
  refine Json.gives_record (fun _ => ⟨nofun, nofun, nofun⟩)
    fun inner same field member draft fits => ?_
  subst same
  simp only [Function.record, List.mem_cons, List.not_mem_nil, or_false] at member
  rcases member with rfl | rfl | rfl | rfl | rfl
  · refine Json.gives_putting (Json.gives_anything _) ?_ draft fits
    exact fun _ _ kept _ => ⟨kept.params, kept.body, kept.returns⟩
  · have params : Gives (Json.readList Parameter.record.read inner) fun params =>
        ∀ param ∈ params, param.ty.pointers + 3 ≤ inner + 1 :=
      Json.gives_readList fun within deeper => (gives_parameter within).mono fun _ _ => by omega
    refine Json.gives_putting params ?_ draft fits
    exact fun _ _ kept fit => ⟨fit, kept.body, kept.returns⟩
  · have body : Gives (Json.readList Entry.read inner) fun body =>
        ∀ entry ∈ body, entry.pointers + 3 ≤ inner + 1 :=
      Json.gives_readList fun within deeper => (gives_entry within).mono fun _ _ => by omega
    refine Json.gives_putting body ?_ draft fits
    exact fun _ _ kept fit => ⟨kept.params, fit, kept.returns⟩
  · refine Json.gives_putting (Json.gives_readOptional (gives_ty inner)) ?_ draft fits
    exact fun _ _ kept fit =>
      ⟨kept.params, kept.body, fun ty isTy => Nat.succ_le_succ (fit ty isTy)⟩
  · refine Json.gives_putting (Json.gives_anything _) ?_ draft fits
    exact fun _ _ kept _ => ⟨kept.params, kept.body, kept.returns⟩

/-- A program is read with types that fit. -/
theorem gives_program (depth : Nat) :
    Gives (Program.record.read depth) (Program.TypesFit depth) := by
  refine Json.gives_record (fun _ => nofun) fun inner same field member draft fits => ?_
  rw [Program.record, List.mem_singleton] at member
  subst same member
  have functions : Gives (Json.readList Function.record.read inner) fun functions =>
      ∀ function ∈ functions, function.TypesFit (inner + 1 - 2) := by
    refine Json.gives_readList fun within deeper => ?_
    subst deeper
    exact gives_function within
  refine Json.gives_putting functions ?_ draft fits
  exact fun _ _ _ fit => fit

end Midend.Lang
