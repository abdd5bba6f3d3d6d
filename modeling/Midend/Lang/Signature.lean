import Midend.Lang.Instruction

/-!
# Signatures

The shape of an operation: the types of its operands and of its result, and how many labels and
functions it names. Constants have none, and neither have the operations that take any number of
operands.
-/

namespace Midend.Lang

/-- `SigType` — the type of one operand or of the result. -/
inductive Slot
  | int
  | bool
  | float
  | char
  /-- The one type variable of the signature. -/
  | any
  /-- A pointer to the type variable. -/
  | pointer
deriving DecidableEq, Repr

/-- The shape of an operation. -/
structure Signature where
  args : List Slot
  result : Option Slot
  labels : Nat := 0
  funcs : Nat := 0
deriving DecidableEq, Repr

/-- `value_signature` — the shape of a value operation. -/
def ValueOp.signature? : ValueOp → Option Signature
  | add | mul | sub | div => some ⟨[.int, .int], some .int, 0, 0⟩
  | eq | lt | gt | le | ge => some ⟨[.int, .int], some .bool, 0, 0⟩
  | not => some ⟨[.bool], some .bool, 0, 0⟩
  | and | or => some ⟨[.bool, .bool], some .bool, 0, 0⟩
  | id => some ⟨[.any], some .any, 0, 0⟩
  | nop => some ⟨[], none, 0, 0⟩
  | fadd | fmul | fsub | fdiv => some ⟨[.float, .float], some .float, 0, 0⟩
  | feq | flt | fgt | fle | fge => some ⟨[.float, .float], some .bool, 0, 0⟩
  | alloc => some ⟨[.int], some .pointer, 0, 0⟩
  | load => some ⟨[.pointer], some .any, 0, 0⟩
  | ptradd => some ⟨[.pointer, .int], some .pointer, 0, 0⟩
  | ceq | clt | cgt | cle | cge => some ⟨[.char, .char], some .bool, 0, 0⟩
  | char2int => some ⟨[.char], some .int, 0, 0⟩
  | int2char => some ⟨[.int], some .char, 0, 0⟩
  | call | phi => none

/-- `effect_signature` — the shape of an effect operation. -/
def EffectOp.signature? : EffectOp → Option Signature
  | jmp => some ⟨[], none, 1, 0⟩
  | br => some ⟨[.bool], none, 2, 0⟩
  | guard => some ⟨[.bool], none, 1, 0⟩
  | nop | speculate | commit => some ⟨[], none, 0, 0⟩
  | free => some ⟨[.pointer], none, 0, 0⟩
  | store => some ⟨[.pointer, .any], none, 0, 0⟩
  | print | ret | call => none

/-- `signature` — the shape that the operation of an instruction asks for. -/
def Instruction.signature? : Instruction → Option Signature
  | const .. => none
  | value op .. => op.signature?
  | effect op .. => op.signature?

/-- A way for an instruction not to have the shape of its operation. -/
inductive Defect
  | argCount (expected found : Nat)
  | labelCount (expected found : Nat)
  | funcCount (expected found : Nat)
  /-- A destination too many, or one missing. -/
  | result
deriving DecidableEq, Repr

/-- `Signature::check_arity` — the first way in which an instruction departs from a signature:
arguments, labels, functions, destination, in that order. -/
def Signature.defect? (signature : Signature) (instr : Instruction) : Option Defect :=
  let operands := instr.operands
  if signature.args.length ≠ operands.args.length then
    some (.argCount signature.args.length operands.args.length)
  else if signature.labels ≠ operands.labels.length then
    some (.labelCount signature.labels operands.labels.length)
  else if signature.funcs ≠ operands.funcs.length then
    some (.funcCount signature.funcs operands.funcs.length)
  else if signature.result.isSome ≠ instr.dest?.isSome then some .result
  else none

/-- The first way in which an instruction departs from the signature of its operation. -/
def Instruction.defect? (instr : Instruction) : Option Defect :=
  instr.signature?.bind fun signature => signature.defect? instr

end Midend.Lang
