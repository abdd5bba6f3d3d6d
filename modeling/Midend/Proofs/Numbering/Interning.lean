import Midend.Proofs.Numbering.Fingerprint
import Midend.Proofs.Numbering.Reading

/-!
# Interning as a linear search

A table gives an expression the number of the one that is written in JSON as it is and equals it,
and a new number if there is none. It is of no consequence how the expressions are found. A table
that files numbers under fingerprints of these texts, and compares the records of expressions that
have one fingerprint, does the same, although it holds the zeros of the two signs for equal: it
never compares them, as long as their fingerprints differ.

Where all floating-point literals are finite, the text alone decides. The infinities have one text,
null, but are not equal; and what is no number, written as null too, does not even equal itself.
-/

namespace Midend

open Lang

/-- What a table is asked for. -/
inductive Request
  /-- The number of an expression. -/
  | intern (expr : Expr)
  /-- A number for a value of which nothing is known. -/
  | fresh
deriving DecidableEq, Repr

/-- The answers to requests that are made one after the other, and the state behind them. -/
def answerAll {σ : Type} (answer : σ → Request → Nat × σ) : σ → List Request → List Nat × σ
  | state, [] => ([], state)
  | state, request :: requests =>
    let (number, state) := answer state request
    let (numbers, state) := answerAll answer state requests
    (number :: numbers, state)

/-- The first request is answered before the others are. -/
theorem answerAll_cons {σ : Type} (answer : σ → Request → Nat × σ) (state : σ) (request : Request)
    (requests : List Request) :
    answerAll answer state (request :: requests) =
      ((answer state request).1 :: (answerAll answer (answer state request).2 requests).1,
        (answerAll answer (answer state request).2 requests).2) :=
  rfl

/-- The number that a table answers with. -/
def Table.answer (table : Table) : Request → Nat × Table
  | .intern expr => table.intern expr
  | .fresh => table.fresh

/-- Whether two expressions are written alike in JSON. -/
def Expr.hasTextOf (known expr : Expr) : Bool :=
  known.json == expr.json

/-- Whether two expressions are written alike in JSON and are equal. -/
def Expr.agrees (known expr : Expr) : Bool :=
  known.hasTextOf expr && known.equals expr

/-- The number that is found by going through the expressions for one that answers a request. -/
def linearSearch (answers : Expr → Expr → Bool) (exprs : List Expr) : Request → Nat × List Expr
  | .intern expr =>
    match exprs.findIdx? fun known => answers known expr with
    | some number => (number, exprs)
    | none => (exprs.length, exprs ++ [expr])
  | .fresh => (exprs.length, exprs ++ [.unknown exprs.length])

/-- Requests for expressions that are not of the unknown kind and refer to numbers handed out
before. -/
def Table.Accepts (table : Table) : List Request → Prop
  | [] => True
  | request :: requests =>
    (∀ expr, request = .intern expr →
      expr.form.kind ≠ .unknown ∧ ∀ ref ∈ expr.form.refs, ref < table.size) ∧
    (table.answer request).2.Accepts requests

/-- Equality of records, member by member. -/
def Form.equals (one other : Form) : Bool :=
  one.kind == other.kind && one.op == other.op && one.refs == other.refs &&
    match one.value, other.value with
    | none, none => true
    | some literal, some literal' => literal.equals literal'
    | _, _ => false

/-- Requests for expressions whose floating-point literals are finite. -/
def Request.isFinite : Request → Bool
  | intern expr => expr.isFinite
  | fresh => true

/-- Records, and their numbers under the fingerprints of their texts. -/
structure Buckets where
  /-- The records, by their numbers. -/
  forms : Array Form := #[]
  /-- The numbers whose records have a fingerprint, the oldest first. -/
  numbers : Std.HashMap UInt64 (List Nat) := ∅

namespace Buckets

/-- The numbers that are filed under a fingerprint. -/
def bucket (buckets : Buckets) (key : UInt64) : List Nat :=
  buckets.numbers.getD key []

/-- Gives a record the next number and files it. -/
def append (buckets : Buckets) (key : UInt64) (form : Form) : Buckets where
  forms := buckets.forms.push form
  numbers := buckets.numbers.insert key (buckets.bucket key ++ [buckets.forms.size])

/-- Whether the record of a number equals that of an expression. -/
def holds (buckets : Buckets) (expr : Expr) (number : Nat) : Bool :=
  buckets.forms[number]?.any fun form => form.equals expr.form

/-- The number that is found under the fingerprint of an expression, or the next one. -/
def answer (fingerprint : String → UInt64) (buckets : Buckets) : Request → Nat × Buckets
  | .intern expr =>
    let key := fingerprint expr.json
    match (buckets.bucket key).find? (buckets.holds expr) with
    | some number => (number, buckets)
    | none => (buckets.forms.size, buckets.append key expr.form)
  | .fresh =>
    let expr := Expr.unknown buckets.forms.size
    (buckets.forms.size, buckets.append (fingerprint expr.json) expr.form)

end Buckets

variable {fingerprint : String → UInt64} {one other expr : Expr} {exprs : List Expr}

/-- Equality of expressions is that of their records. -/
theorem Expr.form_equals (one other : Expr) :
    one.form.equals other.form = one.equals other := by
  have notUnknown (op : ValueOp) : op.name ≠ "unknown" := op.name_ne_unknown
  cases one with
  | unknown number => cases other <;> simp [Form.equals, form, equals, (notUnknown _).symm]
  | constant value => cases other <;> simp [Form.equals, form, equals]
  | apply op operands =>
    cases other with
    | unknown => simp [Form.equals, form, equals, notUnknown]
    | constant => simp [Form.equals, form, equals]
    | apply op' operands' =>
      have names : (op.name == op'.name) = (op == op') := by
        rw [Bool.eq_iff_iff, beq_iff_eq, beq_iff_eq]
        exact ⟨fun same => ValueOp.name_injective same, congrArg _⟩
      cases same : op == op' <;> simp [Form.equals, form, equals, names, same]
      exact fun _ => congrArg _ (beq_iff_eq.1 same)

/-- Expressions that are equal are the same if the fingerprints of their texts are. -/
theorem Expr.eq_of_filed (apart : TellsZeros fingerprint) (same : one.equals other = true)
    (filed : fingerprint one.json = fingerprint other.json) : one = other := by
  rcases eq_of_equals same with same | ⟨sign, sign', rfl, rfl⟩
  · exact same
  · -- The zeros of different signs have different fingerprints.
    cases sign <;> cases sign'
    · rfl
    · exact absurd filed apart
    · exact absurd filed.symm apart
    · rfl

/-- The texts of the zeros of the two signs differ. -/
theorem Expr.json_zero_ne :
    (Expr.constant (.float (.zero false))).json ≠ (Expr.constant (.float (.zero true))).json := by
  decide

/-- An expression agrees with itself, if it equals itself, and with no other. -/
theorem Expr.agrees_iff : one.agrees other = true ↔ one = other ∧ other.equals other = true := by
  rw [agrees, hasTextOf, Bool.and_eq_true, beq_iff_eq]
  constructor
  · rintro ⟨texts, same⟩
    refine ⟨?_, equals_self_of_equals same⟩
    rcases eq_of_equals same with same | ⟨sign, sign', rfl, rfl⟩
    · exact same
    · cases sign <;> cases sign'
      · rfl
      · exact absurd texts json_zero_ne
      · exact absurd texts.symm json_zero_ne
      · rfl
  · rintro ⟨rfl, reflexive⟩
    exact ⟨rfl, reflexive⟩

/-- Expressions whose literals are finite agree if they are written alike. -/
theorem Expr.agrees_eq_hasTextOf (finite : one.isFinite = true) (finite' : other.isFinite = true) :
    one.agrees other = one.hasTextOf other := by
  rw [Bool.eq_iff_iff, agrees, Bool.and_eq_true, and_iff_left_iff_imp, hasTextOf, beq_iff_eq]
  intro texts
  obtain rfl := json_injective finite finite' texts
  cases one with
  | constant literal =>
    rw [equals_self_constant]
    cases literal with
    | float value => rw [Literal.isNaN, Binary64.isNaN_of_isFinite finite, Bool.not_false]
    | int | bool | char => rfl
  | unknown number => exact equals_self_unknown number
  | apply op operands => exact equals_self_apply op operands

/-- Of the expressions of a list no two agree. -/
def ListsOnce (exprs : List Expr) : Prop :=
  exprs.Pairwise fun one other => one.agrees other = false

/-- An expression that equals itself has one place in a list of which no two agree. -/
theorem ListsOnce.eq_of_getElem? (once : ListsOnce exprs) (reflexive : expr.equals expr = true)
    {first second : Nat} (found : exprs[first]? = some expr)
    (foundToo : exprs[second]? = some expr) : first = second := by
  have apart {first second : Nat} (before : first < second) (found : exprs[first]? = some expr)
      (foundToo : exprs[second]? = some expr) : False := by
    obtain ⟨bound, rfl⟩ := List.getElem?_eq_some_iff.1 found
    obtain ⟨boundToo, same⟩ := List.getElem?_eq_some_iff.1 foundToo
    have differ := List.pairwise_iff_getElem.1 once first second bound boundToo before
    rw [same, ← Bool.not_eq_true, Expr.agrees_iff] at differ
    exact differ ⟨rfl, reflexive⟩
  rcases Nat.lt_trichotomy first second with before | same | behind
  · exact (apart before found foundToo).elim
  · exact same
  · exact (apart behind foundToo found).elim

/-- An expression is found where it is, if it equals itself. -/
theorem ListsOnce.findIdx?_eq_some_iff (once : ListsOnce exprs) {number : Nat} :
    (exprs.findIdx? fun known => known.agrees expr) = some number ↔
      expr.equals expr = true ∧ exprs[number]? = some expr := by
  rw [List.findIdx?_eq_some_iff_getElem]
  constructor
  · rintro ⟨bound, agrees, -⟩
    obtain ⟨same, reflexive⟩ := Expr.agrees_iff.1 agrees
    exact ⟨reflexive, List.getElem?_eq_some_iff.2 ⟨bound, same⟩⟩
  · rintro ⟨reflexive, found⟩
    obtain ⟨bound, same⟩ := List.getElem?_eq_some_iff.1 found
    refine ⟨bound, Expr.agrees_iff.2 ⟨same, reflexive⟩, fun earlier before agrees => ?_⟩
    have foundToo : exprs[earlier]? = some expr :=
      List.getElem?_eq_some_iff.2 ⟨Nat.lt_trans before bound, (Expr.agrees_iff.1 agrees).1⟩
    exact Nat.ne_of_lt before (once.eq_of_getElem? reflexive foundToo found)

/-- A table that finds the expressions of a list, which all refer to older numbers. -/
structure Table.Lists (table : Table) (exprs : List Expr) : Prop where
  exprs_eq : table.exprs.toList = exprs
  indexed : table.Indexed
  faithful : table.Faithful

namespace Table

variable {table : Table}

/-- The expressions of the table are those of the list. -/
theorem Lists.expr?_eq (lists : table.Lists exprs) (number : Nat) :
    table.expr? number = exprs[number]? := by
  rw [expr?, ← Array.getElem?_toList, lists.exprs_eq]

/-- The next number is the length of the list. -/
theorem Lists.size_eq (lists : table.Lists exprs) : table.size = exprs.length := by
  rw [size, ← Array.length_toList, lists.exprs_eq]

/-- The table finds an expression where it is, if it equals itself. -/
theorem Lists.find?_eq_some_iff (lists : table.Lists exprs) {number : Nat} :
    table.find? expr = some number ↔ expr.equals expr = true ∧ exprs[number]? = some expr := by
  rw [← lists.expr?_eq]
  constructor
  · intro found
    exact ⟨equals_self_of_find? found, lists.indexed.expr?_of_find? expr number found⟩
  · rintro ⟨reflexive, found⟩
    exact lists.faithful.find?_of_expr? expr number reflexive found

/-- No two expressions that are listed agree. -/
theorem Lists.once (lists : table.Lists exprs) : ListsOnce exprs := by
  refine List.pairwise_iff_getElem.2 fun first second bound boundToo before => ?_
  rw [← Bool.not_eq_true, Expr.agrees_iff]
  rintro ⟨same, reflexive⟩
  have found := lists.find?_eq_some_iff.2 ⟨reflexive, List.getElem?_eq_some_iff.2 ⟨bound, same⟩⟩
  have foundToo := lists.find?_eq_some_iff.2
    ⟨reflexive, List.getElem?_eq_some_iff.2 ⟨boundToo, rfl⟩⟩
  exact Nat.ne_of_lt before (Option.some.inj (found.symm.trans foundToo))

/-- The table finds what going through the list finds. -/
theorem Lists.find?_eq (lists : table.Lists exprs) (expr : Expr) :
    table.find? expr = exprs.findIdx? fun known => known.agrees expr := by
  refine Option.ext fun number => ?_
  rw [lists.find?_eq_some_iff, lists.once.findIdx?_eq_some_iff]

/-- What an expression refers to is at most its own number. -/
theorem Lists.ref_le (lists : table.Lists exprs) {number : Nat}
    (found : exprs[number]? = some expr) : ∀ ref ∈ expr.form.refs, ref ≤ number := by
  rw [← lists.expr?_eq] at found
  intro ref member
  cases expr with
  | unknown other =>
    obtain rfl := List.mem_singleton.1 member
    exact Nat.le_of_eq (lists.faithful.unknown_eq number ref found)
  | constant value => cases member
  | apply op operands =>
    exact Nat.le_of_lt (lists.indexed.operand_lt number op operands found ref member)

/-- Adding an expression that the table does not find adds it to the list. -/
theorem Lists.append (lists : table.Lists exprs) (new : table.find? expr = none)
    (admitted : table.Admits expr) (own : ∀ other, expr = .unknown other → other = table.size) :
    (table.append expr).Lists (exprs ++ [expr]) where
  exprs_eq := by rw [Table.append, Array.toList_push, lists.exprs_eq]
  indexed := lists.indexed.append admitted
  faithful := lists.faithful.append new own

/-- A table answers a request as going through the list does. -/
theorem Lists.answer (lists : table.Lists exprs) {request : Request}
    (accepted : ∀ expr, request = .intern expr →
      expr.form.kind ≠ .unknown ∧ ∀ ref ∈ expr.form.refs, ref < table.size) :
    (table.answer request).1 = (linearSearch Expr.agrees exprs request).1 ∧
      (table.answer request).2.Lists (linearSearch Expr.agrees exprs request).2 := by
  cases request with
  | intern expr =>
    obtain ⟨kind, refs⟩ := accepted expr rfl
    rw [Table.answer, Table.intern, linearSearch, ← lists.find?_eq]
    cases found : table.find? expr with
    | some number => exact ⟨rfl, lists⟩
    | none =>
      refine ⟨lists.size_eq, lists.append found ?_ ?_⟩
      · cases expr with
        | apply op operands => exact refs
        | _ => trivial
      · rintro other rfl
        exact absurd rfl kind
  | fresh =>
    rw [Table.answer, Table.fresh, linearSearch, ← lists.size_eq]
    exact ⟨rfl, lists.append (lists.faithful.find?_unknown_size lists.indexed) trivial
      fun other same => (Expr.unknown.inj same).symm⟩

end Table

/-- Buckets that hold the records of a list, each filed under the fingerprint of its text. -/
structure Buckets.Files (fingerprint : String → UInt64) (buckets : Buckets) (exprs : List Expr) :
    Prop where
  forms_eq : buckets.forms.toList = exprs.map Expr.form
  mem_bucket : ∀ key number, number ∈ buckets.bucket key ↔
    ∃ expr, exprs[number]? = some expr ∧ fingerprint expr.json = key

namespace Buckets

variable {buckets : Buckets}

/-- The next number is the length of the list. -/
theorem Files.size_eq (files : buckets.Files fingerprint exprs) :
    buckets.forms.size = exprs.length := by
  rw [← Array.length_toList, files.forms_eq, List.length_map]

/-- Adding a record adds it to the list. -/
theorem Files.append (files : buckets.Files fingerprint exprs) (expr : Expr) :
    (buckets.append (fingerprint expr.json) expr.form).Files fingerprint (exprs ++ [expr]) where
  forms_eq := by
    rw [Buckets.append, Array.toList_push, files.forms_eq, List.map_append, List.map_singleton]
  mem_bucket key number := by
    have before := files.mem_bucket key number
    have listed : (∃ known, (exprs ++ [expr])[number]? = some known ∧
        fingerprint known.json = key) ↔
          number ∈ buckets.bucket key ∨ number = exprs.length ∧ fingerprint expr.json = key := by
      rw [before]
      rcases Nat.lt_trichotomy number exprs.length with inside | rfl | beyond
      · rw [List.getElem?_append_left inside]
        simp [Nat.ne_of_lt inside]
      · simp
      · rw [List.getElem?_eq_none (by simp; omega), List.getElem?_eq_none (by omega)]
        simp [Nat.ne_of_gt beyond]
    rw [listed, bucket, Buckets.append, Std.HashMap.getD_insert, files.size_eq]
    split
    next same =>
      rw [beq_iff_eq] at same
      simp [same]
    next different =>
      rw [beq_iff_eq] at different
      simp [different, bucket]

/-- Under the fingerprint of an expression is found what going through the list finds. -/
theorem Files.find?_eq (files : buckets.Files fingerprint exprs) (apart : TellsZeros fingerprint)
    (once : ListsOnce exprs) (expr : Expr) :
    (buckets.bucket (fingerprint expr.json)).find? (buckets.holds expr) =
      exprs.findIdx? fun known => known.agrees expr := by
  have form_eq (number : Nat) : buckets.forms[number]? = exprs[number]?.map Expr.form := by
    rw [← Array.getElem?_toList, files.forms_eq, List.getElem?_map]
  -- What is found is the expression, because nothing else that is equal is filed with it.
  have sound {number : Nat} (member : number ∈ buckets.bucket (fingerprint expr.json))
      (equal : buckets.holds expr number = true) :
      expr.equals expr = true ∧ exprs[number]? = some expr := by
    obtain ⟨known, found, filed⟩ := (files.mem_bucket _ number).1 member
    rw [holds, form_eq, found, Option.map_some, Option.any_some, Expr.form_equals] at equal
    rw [found, Expr.eq_of_filed apart equal filed]
    exact ⟨Expr.equals_self_of_equals equal, rfl⟩
  have complete {number : Nat} (reflexive : expr.equals expr = true)
      (found : exprs[number]? = some expr) :
      number ∈ buckets.bucket (fingerprint expr.json) ∧
        buckets.holds expr number = true := by
    refine ⟨(files.mem_bucket _ number).2 ⟨expr, found, rfl⟩, ?_⟩
    rw [holds, form_eq, found, Option.map_some, Option.any_some, Expr.form_equals, reflexive]
  cases looked : (buckets.bucket (fingerprint expr.json)).find? (buckets.holds expr) with
  | some number =>
    have found := sound (List.mem_of_find?_eq_some looked) (List.find?_some looked)
    exact (once.findIdx?_eq_some_iff.2 found).symm
  | none =>
    symm
    rw [Option.eq_none_iff_forall_ne_some]
    intro number found
    obtain ⟨reflexive, stands⟩ := once.findIdx?_eq_some_iff.1 found
    obtain ⟨filed, equal⟩ := complete reflexive stands
    exact List.find?_eq_none.1 looked number filed equal

/-- Buckets answer a request as going through the list does. -/
theorem Files.answer (files : buckets.Files fingerprint exprs) (apart : TellsZeros fingerprint)
    (once : ListsOnce exprs) (request : Request) :
    (buckets.answer fingerprint request).1 = (linearSearch Expr.agrees exprs request).1 ∧
      (buckets.answer fingerprint request).2.Files fingerprint
        (linearSearch Expr.agrees exprs request).2 := by
  cases request with
  | intern expr =>
    rw [Buckets.answer, linearSearch, files.find?_eq apart once]
    cases exprs.findIdx? fun known => known.agrees expr with
    | some number => exact ⟨rfl, files⟩
    | none => exact ⟨files.size_eq, files.append expr⟩
  | fresh =>
    rw [Buckets.answer, linearSearch, files.size_eq]
    exact ⟨rfl, files.append _⟩

end Buckets

/-- A table answers requests as going through the list does. -/
theorem Table.Lists.answerAll {table : Table} (lists : table.Lists exprs) {requests : List Request}
    (accepted : table.Accepts requests) :
    (answerAll Table.answer table requests).1 =
        (answerAll (linearSearch Expr.agrees) exprs requests).1 ∧
      (answerAll Table.answer table requests).2.Lists
        (answerAll (linearSearch Expr.agrees) exprs requests).2 := by
  induction requests generalizing table exprs with
  | nil => exact ⟨rfl, lists⟩
  | cons request requests ih =>
    obtain ⟨number, next⟩ := lists.answer accepted.1
    obtain ⟨numbers, last⟩ := ih next accepted.2
    exact ⟨congrArg₂ List.cons number numbers, last⟩

/-- Buckets answer requests as going through the list does. -/
theorem Buckets.Files.answerAll {buckets : Buckets} (files : buckets.Files fingerprint exprs)
    (apart : TellsZeros fingerprint) {table : Table} (lists : table.Lists exprs)
    {requests : List Request} (accepted : table.Accepts requests) :
    (answerAll (Buckets.answer fingerprint) buckets requests).1 =
        (answerAll (linearSearch Expr.agrees) exprs requests).1 ∧
      (answerAll (Buckets.answer fingerprint) buckets requests).2.Files fingerprint
        (answerAll (linearSearch Expr.agrees) exprs requests).2 := by
  induction requests generalizing table buckets exprs with
  | nil => exact ⟨rfl, files⟩
  | cons request requests ih =>
    obtain ⟨number, next⟩ := files.answer apart lists.once request
    obtain ⟨numbers, last⟩ := ih next (lists.answer accepted.1).2 accepted.2
    exact ⟨congrArg₂ List.cons number numbers, last⟩

/-- Where all literals are finite, going through the list by texts alone comes to the same. -/
theorem linearSearch_hasTextOf (finite : ∀ known ∈ exprs, known.isFinite = true)
    {request : Request} (finiteToo : request.isFinite = true) :
    linearSearch Expr.hasTextOf exprs request = linearSearch Expr.agrees exprs request ∧
      ∀ known ∈ (linearSearch Expr.agrees exprs request).2, known.isFinite = true := by
  have added (expr : Expr) (isFinite : expr.isFinite = true) :
      ∀ known ∈ exprs ++ [expr], known.isFinite = true := by
    intro known member
    rcases List.mem_append.1 member with old | new
    · exact finite known old
    · rw [List.mem_singleton.1 new, isFinite]
  cases request with
  | fresh =>
    rw [linearSearch, linearSearch]
    exact ⟨rfl, added _ rfl⟩
  | intern expr =>
    have same : (exprs.findIdx? fun known => known.hasTextOf expr) =
        exprs.findIdx? fun known => known.agrees expr := by
      refine Option.ext fun number => ?_
      rw [List.findIdx?_eq_some_iff_getElem, List.findIdx?_eq_some_iff_getElem]
      refine exists_congr fun bound => ?_
      have agree (place : Nat) (inside : place < exprs.length) :
          exprs[place].agrees expr = exprs[place].hasTextOf expr :=
        Expr.agrees_eq_hasTextOf (finite _ (List.getElem_mem inside)) finiteToo
      simp only [agree]
    rw [linearSearch, linearSearch, same]
    cases exprs.findIdx? fun known => known.agrees expr with
    | some number => exact ⟨rfl, finite⟩
    | none => exact ⟨rfl, added expr finiteToo⟩

/-- Where all literals are finite, going through the list by texts alone answers alike. -/
theorem answerAll_hasTextOf (finite : ∀ known ∈ exprs, known.isFinite = true)
    {requests : List Request} (finiteToo : ∀ request ∈ requests, request.isFinite = true) :
    answerAll (linearSearch Expr.hasTextOf) exprs requests =
        answerAll (linearSearch Expr.agrees) exprs requests ∧
      ∀ known ∈ (answerAll (linearSearch Expr.agrees) exprs requests).2,
        known.isFinite = true := by
  induction requests generalizing exprs with
  | nil => exact ⟨by rw [answerAll, answerAll], finite⟩
  | cons request requests ih =>
    rw [List.forall_mem_cons] at finiteToo
    obtain ⟨same, next⟩ := linearSearch_hasTextOf finite finiteToo.1
    obtain ⟨others, last⟩ := ih next finiteToo.2
    rw [answerAll_cons, answerAll_cons, same]
    exact ⟨by rw [others], last⟩

/-- Whatever expressions a new table is asked for that are not of the unknown kind and refer to
numbers handed out before, and whenever it is asked for a number for an unknown value, it answers as
going through the expressions does: with the number of the expression that has the same JSON text
and equals the one asked for, and otherwise with the next number. No two numbers ever have
expressions of one text that are equal, and no expression refers to a number beyond its own.
Whatever fingerprints collide, the same holds of a table that files records by the fingerprints of
their texts, if these tell the zeros of the two signs. Where all floating-point literals that it is
asked for are finite, the text alone decides, and no two numbers have expressions of one text. -/
theorem interning_transparent (requests : List Request) (accepted : Table.Accepts {} requests) :
    let found := answerAll (linearSearch Expr.agrees) [] requests
    let answered := answerAll Table.answer {} requests
    answered.1 = found.1 ∧ answered.2.exprs.toList = found.2 ∧
      (answered.2.exprs.toList.Pairwise fun one other =>
        ¬(one.json = other.json ∧ one.equals other = true)) ∧
      (∀ number expr, answered.2.expr? number = some expr →
        ∀ ref ∈ expr.form.refs, ref ≤ number) ∧
      (∀ fingerprint, TellsZeros fingerprint →
        let filed := answerAll (Buckets.answer fingerprint) {} requests
        filed.1 = found.1 ∧ filed.2.forms.toList = found.2.map Expr.form) ∧
      ((∀ request ∈ requests, request.isFinite = true) →
        found = answerAll (linearSearch Expr.hasTextOf) [] requests ∧
          (answered.2.exprs.toList.map Expr.json).Nodup) := by
  have empty : Table.Lists {} [] := ⟨rfl, Table.indexed_empty, Table.faithful_empty⟩
  obtain ⟨numbers, lists⟩ := empty.answerAll accepted
  refine ⟨numbers, lists.exprs_eq, ?_, fun number expr found => ?_, fun fingerprint apart => ?_,
    fun finite => ?_⟩
  · rw [lists.exprs_eq]
    refine lists.once.imp fun {one other} differ same => ?_
    rw [Expr.agrees, Expr.hasTextOf, beq_iff_eq.2 same.1, same.2] at differ
    cases differ
  · rw [lists.expr?_eq] at found
    exact lists.ref_le found
  · have files : Buckets.Files fingerprint {} [] := ⟨rfl, by simp [Buckets.bucket]⟩
    obtain ⟨numbers, files⟩ := files.answerAll apart empty accepted
    exact ⟨numbers, files.forms_eq⟩
  · obtain ⟨same, finiteToo⟩ := answerAll_hasTextOf (List.forall_mem_nil _) finite
    refine ⟨same.symm, ?_⟩
    rw [lists.exprs_eq, List.Nodup, List.pairwise_map]
    refine lists.once.imp_of_mem fun {one other} member memberToo differ texts => ?_
    rw [Expr.agrees_eq_hasTextOf (finiteToo one member) (finiteToo other memberToo),
      Expr.hasTextOf, beq_iff_eq.2 texts] at differ
    cases differ

/-- Requests for the zeros of both signs, for a sum with an unknown value, for some of these again,
and twice for the infinities and for what is no number. -/
def unlikeNumbers : List Request :=
  [.intern (.constant (.float (.zero false))), .intern (.constant (.float (.zero true))),
    .intern (.constant (.float (.zero false))), .fresh, .intern (.apply .fadd [0, 2]),
    .intern (.apply .fadd [0, 2]), .fresh, .intern (.constant (.float (.infinity false))),
    .intern (.constant (.float (.infinity true))), .intern (.constant (.float (.infinity false))),
    .intern (.constant (.float (.infinity true))), .intern (.constant (.float .quietNaN)),
    .intern (.constant (.float .quietNaN))]

/-- The zeros of the two signs have different numbers and so have the infinities, and what is asked
for again has the number that it had, unless it is no number. -/
theorem interning_transparent_signedZeros : Table.Accepts {} unlikeNumbers ∧
    (answerAll Table.answer {} unlikeNumbers).1 = [0, 1, 0, 2, 3, 3, 4, 5, 6, 5, 6, 7, 8] ∧
      (answerAll (Buckets.answer Murmur.fingerprint) {} unlikeNumbers).1 =
        [0, 1, 0, 2, 3, 3, 4, 5, 6, 5, 6, 7, 8] := by
  have signs : Binary64.zero false ≠ Binary64.zero true := by
    decide
  have numbers : (Binary64.zero false).equals (.zero false) = true ∧
      (Binary64.zero true).equals (.zero true) = true := by
    decide
  have accepted : Table.Accepts {} unlikeNumbers := by
    simp [Table.Accepts, unlikeNumbers, Table.answer, Table.intern, Table.fresh, Table.size,
      Table.append, Table.find?, Expr.equals, Literal.equals, Expr.form, ValueOp.kind, signs,
      signs.symm, numbers]
  have searched : (answerAll (linearSearch Expr.agrees) [] unlikeNumbers).1 =
      [0, 1, 0, 2, 3, 3, 4, 5, 6, 5, 6, 7, 8] := by
    decide +kernel
  obtain ⟨numbers, -, -, -, filed, -⟩ := interning_transparent unlikeNumbers accepted
  obtain ⟨filedNumbers, -⟩ := filed Murmur.fingerprint Murmur.tellsZeros
  refine ⟨accepted, ?_, ?_⟩
  · rw [numbers, searched]
  · rw [filedNumbers, searched]

/-- The text alone does not decide: the infinities are written alike and have two numbers. -/
theorem interning_infinitiesShareText :
    ¬∀ requests, Table.Accepts {} requests →
      (answerAll Table.answer {} requests).1 =
        (answerAll (linearSearch Expr.hasTextOf) [] requests).1 := by
  intro transparent
  have signs : Binary64.infinity false ≠ Binary64.infinity true := by
    decide
  have same := transparent [.intern (.constant (.float (.infinity false))),
    .intern (.constant (.float (.infinity true)))] (by simp [Table.Accepts, Expr.form])
  have searched : (answerAll (linearSearch Expr.hasTextOf) []
      [.intern (.constant (.float (.infinity false))),
        .intern (.constant (.float (.infinity true)))]).1 = [0, 0] := by
    decide
  rw [searched] at same
  simp [answerAll, Table.answer, Table.intern, Table.find?_append, signs] at same

end Midend
