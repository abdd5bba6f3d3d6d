import Midend.Proofs.Numbering.Consistency

/-!
# What numbers stand for

At run time every number of a pool stands for a value. A pool describes the variables of a run when
each variable has the value of its number and each expression the value that its operation gives
to the values of its operands. Reading and assigning keep a description right, and whatever an
instruction is replaced by reads the same values as the instruction itself.
-/

namespace Midend

open Lang

/-- The value of an expression over numbers that stand for values; nothing is known of an unknown
one. -/
def Expr.meaning? {V : Type} (value : Literal → V) (apply : ValueOp → List V → V)
    (values : Nat → V) : Expr → Option V
  | .unknown _ => none
  | .constant literal => some (value literal)
  | .apply op operands => some (apply op (operands.map values))

/-- A consistent pool that is right about the variables of a run. -/
structure Pool.Describes {V : Type} (pool : Pool) (value : Literal → V)
    (apply : ValueOp → List V → V) (values : Nat → V) (vars : String → V) : Prop where
  consistent : pool.Consistent
  var_eq : ∀ (name : String) (number : Nat), pool.numbers[name]? = some number →
    vars name = values number
  expr_eq : ∀ (number : Nat) (expr : Expr) (outcome : V), pool.table.expr? number = some expr →
    expr.meaning? value apply values = some outcome → values number = outcome

/-- A pool that was added to so that the given numbers stand for the given values, while the numbers
handed out before stand for what they stood for. -/
def Pool.Supplies {V : Type} (value : Literal → V) (apply : ValueOp → List V → V)
    (before : Pool) (values : Nat → V) (vars : String → V) (numbers : List Nat) (after : Pool)
    (outcomes : List V) : Prop :=
  ∃ later : Nat → V, (∀ number < before.table.size, later number = values number) ∧
    before.table.size ≤ after.table.size ∧ (∀ number ∈ numbers, number < after.table.size) ∧
    numbers.map later = outcomes ∧ after.Describes value apply later vars

namespace Pool

variable {V : Type} {value : Literal → V} {apply : ValueOp → List V → V} {pool : Pool}
  {values : Nat → V} {vars : String → V}

/-- The empty pool describes any variables. -/
theorem describes_empty (value : Literal → V) (apply : ValueOp → List V → V) (values : Nat → V)
    (vars : String → V) : Describes {} value apply values vars where
  consistent := consistent_empty
  var_eq name number found := by simp at found
  expr_eq number expr outcome found := by simp [Table.expr?] at found

/-- The value of an expression over old numbers does not depend on what newer ones stand for. -/
theorem meaning?_congr {table : Table} {expr : Expr} (admitted : table.Admits expr)
    {first second : Nat → V} (same : ∀ number < table.size, first number = second number) :
    expr.meaning? value apply first = expr.meaning? value apply second := by
  cases expr with
  | unknown number => rfl
  | constant literal => rfl
  | apply op operands =>
    have operandsSame : operands.map first = operands.map second :=
      List.map_congr_left fun operand member => same operand (admitted operand member)
    rw [Expr.meaning?, Expr.meaning?, operandsSame]

/-- A number that has an expression refers only to numbers handed out before it. -/
theorem Consistent.admits (consistent : pool.Consistent) {number : Nat} {expr : Expr}
    (found : pool.table.expr? number = some expr) : pool.table.Admits expr := by
  cases expr with
  | unknown _ => trivial
  | constant _ => trivial
  | apply op operands =>
    intro operand member
    have older := consistent.table.operand_lt number op operands found operand member
    exact Nat.lt_trans older (Table.lt_size_of_expr? found)

/-- A further expression can be given any value that is its meaning, if it has one. -/
theorem Describes.append (described : pool.Describes value apply values vars) (expr : Expr)
    (admitted : pool.table.Admits expr) (outcome : V)
    (right : ∀ meaning, expr.meaning? value apply values = some meaning → outcome = meaning) :
    Supplies value apply pool values vars [pool.table.size]
      { pool with table := pool.table.append expr } [outcome] := by
  let later : Nat → V := fun number => if number = pool.table.size then outcome else values number
  have old (number : Nat) (bound : number < pool.table.size) : later number = values number :=
    if_neg (Nat.ne_of_lt bound)
  refine ⟨later, old, by simp, by simp, by simp [later], ?_⟩
  constructor
  · exact described.consistent.withTable (described.consistent.table.append admitted) (by simp)
  · intro name number found
    rw [old number (described.consistent.number_lt name number found)]
    exact described.var_eq name number found
  · intro number other meaning found means
    rw [Table.expr?_append] at found
    by_cases newest : number = pool.table.size
    · rw [if_pos newest, Option.some.injEq] at found
      subst found
      rw [meaning?_congr admitted old] at means
      rw [newest, ← right meaning means]
      exact if_pos rfl
    · rw [if_neg newest] at found
      rw [meaning?_congr (described.consistent.admits found) old] at means
      rw [old number (Table.lt_size_of_expr? found)]
      exact described.expr_eq number other meaning found means

/-- A fresh number can stand for any value. -/
theorem Describes.fresh (described : pool.Describes value apply values vars) (outcome : V) :
    Supplies value apply pool values vars [pool.fresh.1] pool.fresh.2 [outcome] := by
  refine described.append (.unknown pool.table.size) trivial outcome ?_
  intro meaning means
  cases means

/-- Interning gives a number that stands for the meaning of the expression. -/
theorem Describes.intern (described : pool.Describes value apply values vars) (expr : Expr)
    (admitted : pool.table.Admits expr) {outcome : V}
    (means : expr.meaning? value apply values = some outcome) :
    Supplies value apply pool values vars [(pool.intern expr).1] (pool.intern expr).2
      [outcome] := by
  unfold Pool.intern Table.intern
  cases known : pool.table.find? expr with
  | some number =>
    have found := described.consistent.table.expr?_of_find? expr number known
    have right := described.expr_eq number expr outcome found means
    exact ⟨values, fun _ _ => rfl, Nat.le_refl _, by simpa using Table.lt_size_of_expr? found,
      by simp [right], described⟩
  | none =>
    refine described.append expr admitted outcome ?_
    intro meaning other
    rw [means, Option.some.injEq] at other
    exact other

/-- Assigning a number to a variable describes the variables after it has been given the value that
the number stands for. -/
theorem Describes.assign (described : pool.Describes value apply values vars) (name : String)
    {number : Nat} (bound : number < pool.table.size) :
    (pool.assign name number).Describes value apply values
      (fun other => if other = name then values number else vars other) := by
  constructor
  · exact described.consistent.assign name bound
  · intro other found known
    rw [numbers_assign] at known
    by_cases same : other = name
    · rw [if_pos same, Option.some.injEq] at known
      rw [if_pos same, known]
    · rw [if_neg same] at known
      rw [if_neg same]
      exact described.var_eq other found known
  · rw [table_assign]
    exact described.expr_eq

/-- Reading a variable gives a number that stands for its value. -/
theorem Describes.read (described : pool.Describes value apply values vars) (name : String) :
    Supplies value apply pool values vars [(pool.read name).1] (pool.read name).2 [vars name] := by
  unfold Pool.read
  cases known : pool.numbers[name]? with
  | some number =>
    exact ⟨values, fun _ _ => rfl, Nat.le_refl _,
      by simpa using described.consistent.number_lt name number known,
      by simp [described.var_eq name number known], described⟩
  | none =>
    obtain ⟨later, old, grown, bounds, outcomes, after⟩ := described.fresh (vars name)
    have bound : pool.fresh.1 < pool.fresh.2.table.size := bounds _ List.mem_cons_self
    have outcome : later pool.fresh.1 = vars name := by simpa using outcomes
    have assigned := after.assign name bound
    have unchanged : (fun other => if other = name then later pool.fresh.1 else vars other) =
        vars := by
      funext other
      by_cases same : other = name
      · rw [if_pos same, outcome, same]
      · rw [if_neg same]
    rw [unchanged] at assigned
    exact ⟨later, old, by simpa using grown, by simpa using bound, outcomes, assigned⟩

/-- Variables are read in order. -/
theorem readAll_cons (pool : Pool) (name : String) (names : List String) :
    pool.readAll (name :: names) = ((pool.read name).1 :: ((pool.read name).2.readAll names).1,
      ((pool.read name).2.readAll names).2) :=
  rfl

/-- Reading variables gives numbers that stand for their values. -/
theorem Describes.readAll (described : pool.Describes value apply values vars)
    (names : List String) :
    Supplies value apply pool values vars (pool.readAll names).1 (pool.readAll names).2
      (names.map vars) := by
  induction names generalizing pool values with
  | nil => exact ⟨values, fun _ _ => rfl, Nat.le_refl _, by simp [Pool.readAll], rfl, described⟩
  | cons name names ih =>
    obtain ⟨middle, old, grown, bounds, outcomes, between⟩ := described.read name
    obtain ⟨later, kept, more, others, rest, after⟩ := ih between
    have bound : (pool.read name).1 < (pool.read name).2.table.size :=
      bounds _ List.mem_cons_self
    rw [readAll_cons]
    refine ⟨later, ?_, Nat.le_trans grown more, ?_, ?_, after⟩
    · intro number small
      rw [kept number (Nat.lt_of_lt_of_le small grown), old number small]
    · intro number member
      rcases List.mem_cons.1 member with first | other
      · rw [first]
        exact Nat.lt_of_lt_of_le bound more
      · exact others number other
    · have outcome : middle (pool.read name).1 = vars name := by simpa using outcomes
      rw [List.map_cons, List.map_cons, kept _ bound, outcome, rest]

/-- A preferred variable has the value of the variable that it stands in for. -/
theorem Describes.vars_preferred (described : pool.Describes value apply values vars)
    (name : String) : vars (pool.preferred name) = vars name := by
  unfold preferred
  cases known : pool.numbers[name]? with
  | none => rfl
  | some number =>
    cases holder : pool.standIn? number with
    | none => simp [holder]
    | some other =>
      have holds := (described.consistent.mem_holdersOf other number).1
        (List.mem_of_mem_head? holder)
      rw [Option.bind_some, holder, Option.getD_some, described.var_eq name number known,
        described.var_eq other number holds]

/-- The variable that stands in for a number has the value of the number. -/
theorem Describes.vars_standIn? (described : pool.Describes value apply values vars)
    {number : Nat} {holder : String} (found : pool.standIn? number = some holder) :
    vars holder = values number :=
  described.var_eq holder number
    ((described.consistent.mem_holdersOf holder number).1 (List.mem_of_mem_head? found))

/-- The literal of a number is its value. -/
theorem Describes.value_literal? (described : pool.Describes value apply values vars)
    {number : Nat} {literal : Literal} (found : pool.table.literal? number = some literal) :
    values number = value literal := by
  unfold Table.literal? at found
  split at found
  next other constant =>
    rw [Option.some.injEq] at found
    subst found
    exact described.expr_eq number _ _ constant rfl
  next => cases found

end Pool

end Midend
