import Midend.Lang.Function
import Mathlib.Algebra.Ring.Int.Defs
import Mathlib.Logic.Function.Iterate

/-!
# Running function bodies

A body is run one entry at a time. What its operations do is left open: an interpretation says which
values they compute, what they do to a hidden state, and where an effect operation sends control. It
knows the operation, what the operation names besides variables, and the values of the variables
read, but not the variables themselves.
-/

namespace Midend

open Lang

namespace Lang.Entry

/-- The label declared by an entry, with its position. -/
def label? : Entry → Option (String × Option Position)
  | .label name pos => some (name, pos)
  | .instr _ => none

/-- Whether an entry declares a label. -/
def declares (label : String) : Entry → Bool
  | .label name _ => name == label
  | .instr _ => false

/-- The variable that an entry writes, with its declared type. -/
def result? (entry : Entry) : Option (String × Ty) :=
  entry.instr?.bind Instruction.result?

/-- The place of an entry in its source. -/
def pos? : Entry → Option Position
  | .label _ pos => pos
  | .instr instruction => instruction.pos?

end Lang.Entry

/-- The places of a body at which a label is declared, in order. -/
def declarations (label : String) : List Entry → List Nat
  | [] => []
  | entry :: entries =>
    let later := (declarations label entries).map (· + 1)
    if entry.declares label then 0 :: later else later

namespace Execution

/-- Where an effect operation sends control. -/
inductive Control
  /-- To the next entry. -/
  | onward
  /-- To the entry that declares a label; of several such entries, to the one of the given
  number. -/
  | jump (label : String) (number : Nat)
  | stop
deriving DecidableEq, Repr

/-- What operations do to values of type `V` and hidden states of type `S`. -/
structure Interpretation (V S : Type) where
  /-- The value of a constant. -/
  constant : Ty → Literal → S → V
  /-- The value of a value operation on operands, and the hidden state behind it. -/
  compute : ValueOp → Ty → (funcs labels : List String) → (operands : List V) → S → V × S
  /-- The hidden state behind an effect operation on operands, and where control goes. -/
  perform : EffectOp → (funcs labels : List String) → (operands : List V) → S → S × Control

/-- An operation that was carried out, with the values of its operands. -/
structure Event (V : Type) where
  op : ValueOp ⊕ EffectOp
  funcs : List String
  labels : List String
  operands : List V

/-- Where a run stands. -/
inductive Place
  /-- In front of an entry. -/
  | before (entry : Nat)
  /-- Behind the last entry, which control has run out of. -/
  | ended
  /-- At an effect operation that control did not leave. -/
  | stopped (op : EffectOp)
deriving DecidableEq, Repr

/-- A run at one moment. -/
structure State (V S : Type) where
  place : Place
  /-- The values of the variables. -/
  vars : String → V
  hidden : S
  /-- The operations carried out so far, in order. -/
  performed : List (Event V)

/-- The variables after one of them has been given a value. -/
def assign {V : Type} (vars : String → V) (name : String) (value : V) : String → V :=
  fun other => if other = name then value else vars other

/-- The place that control goes to from an effect operation. Only a label that the operation names
can be jumped to; control that would go nowhere stops. -/
def destination (body : List Entry) (entry : Nat) (op : EffectOp) (labels : List String) :
    Control → Place
  | .onward => .before (entry + 1)
  | .jump label number =>
    if label ∈ labels then
      match (declarations label body)[number]? with
      | some target => .before target
      | none => .stopped op
    else .stopped op
  | .stop => .stopped op

variable {V S : Type}

/-- The state in which a run starts. -/
def State.start (vars : String → V) (hidden : S) : State V S :=
  { place := .before 0, vars, hidden, performed := [] }

namespace Interpretation

/-- Carries out the instruction at an entry. -/
def execute (meaning : Interpretation V S) (body : List Entry) (entry : Nat)
    (state : State V S) : Instruction → State V S
  | .const dest ty literal _ =>
    { state with
      place := .before (entry + 1)
      vars := assign state.vars dest (meaning.constant ty literal state.hidden) }
  | .value op dest ty operands _ =>
    let values := operands.args.map state.vars
    let outcome := meaning.compute op ty operands.funcs operands.labels values state.hidden
    { place := .before (entry + 1)
      vars := assign state.vars dest outcome.1
      hidden := outcome.2
      performed := state.performed ++ [⟨.inl op, operands.funcs, operands.labels, values⟩] }
  | .effect op operands _ =>
    let values := operands.args.map state.vars
    let outcome := meaning.perform op operands.funcs operands.labels values state.hidden
    { place := destination body entry op operands.labels outcome.2
      vars := state.vars
      hidden := outcome.1
      performed := state.performed ++ [⟨.inr op, operands.funcs, operands.labels, values⟩] }

/-- One step of a run. A run that has come to its end stays there. -/
def step (meaning : Interpretation V S) (body : List Entry) (state : State V S) : State V S :=
  match state.place with
  | .before entry =>
    match body[entry]? with
    | none => { state with place := .ended }
    | some (.label ..) => { state with place := .before (entry + 1) }
    | some (.instr instr) => meaning.execute body entry state instr
  | .ended | .stopped _ => state

/-- A run of a number of steps. -/
def run (meaning : Interpretation V S) (body : List Entry) (steps : Nat) (state : State V S) :
    State V S :=
  (meaning.step body)^[steps] state

/-- An interpretation over integers that counts calls and effects. Operations add their operands up,
and branches take the first label. -/
def adding : Interpretation Int Nat where
  constant _ literal _ :=
    match literal with
    | .int value => value.toInt
    | _ => 0
  compute op _ _ _ operands hidden := (operands.sum, if op = .call then hidden + 1 else hidden)
  perform op _ labels _ hidden :=
    (hidden + 1,
      match op, labels with
      | .br, label :: _ | .jmp, label :: _ => .jump label 0
      | .br, [] | .jmp, [] | .ret, _ => .stop
      | _, _ => .onward)

end Interpretation

/-- A place is among the declarations of a label exactly when its entry declares it. -/
theorem mem_declarations (label : String) (body : List Entry) (place : Nat) :
    place ∈ declarations label body ↔ body[place]?.any (Entry.declares label) = true := by
  induction body generalizing place with
  | nil => simp [declarations]
  | cons entry entries ih =>
    rw [declarations]
    cases place with
    | zero => cases declared : entry.declares label <;> simp [declared]
    | succ place => cases declared : entry.declares label <;> simp [ih]

/-- What a label is declared by depends on the labels of the body alone. -/
theorem declarations_congr (label : String) (first second : List Entry)
    (same : first.map Entry.label? = second.map Entry.label?) :
    declarations label first = declarations label second := by
  induction first generalizing second with
  | nil =>
    cases second with
    | nil => rfl
    | cons entry entries => simp at same
  | cons entry entries ih =>
    cases second with
    | nil => simp at same
    | cons other others =>
      simp only [List.map_cons, List.cons.injEq] at same
      have declared : entry.declares label = other.declares label := by
        cases entry <;> cases other <;> simp_all [Entry.label?, Entry.declares]
      rw [declarations, declarations, ih others same.2, declared]

end Execution

end Midend
