import Midend.Block.Build
import Midend.Fault
import Midend.Numbering.Pool
import Midend.Options

/-!
# Local value numbering

Within a block, an instruction whose value is already known is replaced by a constant or by a copy
of the variable that holds it, and variables are read from the one that has held their value
longest. Operations whose value depends on more than their operands are given a number of their
own, and never match another.
-/

namespace Midend

open Lang

/-- `ExprKind` — how value numbering treats an instruction. -/
inductive Treatment
  /-- Not looked at. -/
  | ignored
  /-- Operands are numbered; nothing is known of the result. -/
  | fresh
  /-- Operands are numbered, and the result is known by them. -/
  | numbered
deriving DecidableEq, Repr

/-- How value numbering treats a value operation. -/
def Lang.ValueOp.treatment : ValueOp → Treatment
  | call | load | ptradd | alloc | phi | nop => .fresh
  | _ => .numbered

/-- How value numbering treats an effect operation. -/
def Lang.EffectOp.treatment : EffectOp → Treatment
  | print | ret | guard | br => .numbered
  | store | free | call => .fresh
  | jmp | speculate | commit | nop => .ignored

/-- `classify` — how value numbering treats an instruction. -/
def Lang.Instruction.treatment : Instruction → Treatment
  | const .. => .numbered
  | value op .. => op.treatment
  | effect op .. => op.treatment

/-- Operands in the order in which an expression lists them. -/
def Options.arrange (options : Options) (op : ValueOp) (operands : List Nat) : List Nat :=
  if options.commutative && op.isCommutative then operands.mergeSort else operands

/-- The number of the value of an operation on numbered operands; a copy has the number of what it
copies. -/
def Pool.numberOf (pool : Pool) (options : Options) (op : ValueOp) (operands : List Nat) :
    Nat × Pool :=
  match op, operands with
  | .id, [operand] => (operand, pool)
  | _, _ => pool.intern (.apply op (options.arrange op operands))

/-- The number of the value that an instruction computes from numbered operands. -/
def Pool.resultNumber (pool : Pool) (options : Options) (operands : List Nat) :
    Instruction → Nat × Pool
  | .const _ _ literal _ => pool.intern (.constant literal)
  | .value op .. =>
    if op.treatment = .numbered then pool.numberOf options op operands else pool.fresh
  | .effect .. => pool.fresh

/-- `rewrite` — the instruction to write for one whose result, `dest` of type `ty`, has a number: a
constant if the number is one, a copy if some variable holds it, and otherwise the instruction
itself, read from the preferred variables. -/
def Pool.replacement (pool : Pool) (number : Nat) (dest : String) (ty : Ty)
    (instr : Instruction) : Instruction :=
  match pool.table.literal? number, pool.standIn? number with
  | some literal, _ => .const dest ty literal instr.pos?
  | none, some holder => .value .id dest ty { args := [holder] } instr.pos?
  | none, none => instr.mapArgs pool.preferred

/-- `NumberPool::update` — goes past one instruction: the simplified instruction, and the values
behind it. -/
def Pool.step (pool : Pool) (options : Options) (instr : Instruction) :
    Except Fault (Instruction × Pool) := do
  if instr.treatment = .ignored then return (instr, pool)
  if instr.treatment = .numbered then instr.checkShape
  let (operands, pool) := pool.readAll instr.args
  match instr.result? with
  | none => return (instr.mapArgs pool.preferred, pool)
  | some (dest, ty) =>
    let (number, pool) := pool.resultNumber options operands instr
    return (pool.replacement number dest ty instr, pool.assign dest number)

/-- How many places of two lists of names differ. -/
def differences (left right : List String) : Nat :=
  ((left.zip right).filter fun pair => pair.1 != pair.2).length

/-- How many changes a simplified instruction shows: one if it is another operation or a constant
that does not equal the one before, otherwise one for each operand that is another. -/
def Lang.Instruction.changesTo (before after : Instruction) : Nat :=
  match before, after with
  | .const _ _ old _, .const _ _ new _ => if old.equals new then 0 else 1
  | _, _ => if before.opName == after.opName then differences before.args after.args else 1

/-- The loop of `apply_lvn_to_block` — simplifies instructions one after the other and counts the
changes. At an instruction that has not the shape of its operation it stops; that one and those
behind it stay as they are. -/
def Pool.simplify (options : Options) :
    Pool → List Instruction → List Instruction × Except Fault Nat
  | _, [] => ([], .ok 0)
  | pool, instr :: instrs =>
    match pool.step options instr with
    | .error fault => (instr :: instrs, .error fault)
    | .ok (simplified, pool) =>
      let (others, count) := pool.simplify options instrs
      (simplified :: others, count.map (instr.changesTo simplified + ·))

/-- `apply_lvn_to_block` — numbers the values of a block and simplifies it, also up to a fault. -/
def Block.numberValues (block : Block) (options : Options) : Block × Except Fault Nat :=
  let (instrs, count) := Pool.simplify options {} block.instrs
  ({ block with instrs }, count)

/-- Numbers the values of each block of a function. -/
def Lang.Function.numberValues (function : Function) (options : Options) :
    Except Fault Function := do
  let blocks ← function.blocks.mapM fun block =>
    let (simplified, count) := block.numberValues options
    count.map fun _ => simplified
  return function.withBlocks blocks

/-- `apply_lvn_to_program` — numbers the values of each block of a program. -/
def Lang.Program.numberValues (program : Program) (options : Options) : Except Fault Program := do
  return { functions := ← program.functions.mapM fun function => function.numberValues options }

end Midend
