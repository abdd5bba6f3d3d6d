import Midend.Lang.Instruction

/-!
# Functions and programs

Rows tell instructions apart. An instruction without a position of its own stands on the row it
would occupy in the canonical text: one row for the header, then one for each entry. Rows are words
of thirty-two bits, and the sum that gives such a row is formed for every instruction, whether it
has a position or not. Where a sum does not fit, it wraps around or is refused, as the build has it.
-/

namespace Midend.Lang

/-- A function with its body. -/
structure Function where
  name : String
  params : List Parameter := []
  body : List Entry := []
  /-- The type returned, if a value is returned. -/
  returns : Option Ty := none
  pos : Option Position := none
deriving DecidableEq, Repr, Inhabited

/-- The functions of a program, in order. -/
structure Program where
  functions : List Function := []
deriving DecidableEq, Repr, Inhabited

/-- `header_row` — the row of the header, where parameters are defined. -/
def Function.headerRow (function : Function) : Nat :=
  (function.pos.map fun pos => pos.row.toNat).getD 0

/-- The row that the entry at an index would occupy in the canonical text, where sums wrap
around. -/
def Function.textRow (function : Function) (index : Nat) : UInt32 :=
  .ofNat function.headerRow + 1 + .ofNat index

/-- The row of the instruction at an index of the body. -/
def Function.rowOf (function : Function) (index : Nat) (instr : Instruction) : Nat :=
  (instr.pos?.map fun pos => pos.row.toNat).getD (function.textRow index).toNat

/-- `instr_rows` — the rows of the instructions, in order; labels have none. -/
def Function.rows (function : Function) : List Nat :=
  function.body.zipIdx.filterMap fun (entry, index) => entry.instr?.map (function.rowOf index)

/-- `Program::get_function` — the first function of a given name. -/
def Program.function? (program : Program) (name : String) : Option Function :=
  program.functions.find? fun function => function.name == name

end Midend.Lang
