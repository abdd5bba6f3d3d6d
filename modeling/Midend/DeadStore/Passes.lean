import Midend.Block.Build
import Midend.DeadStore.Basic
import Midend.Options

/-!
# Passes of dead store elimination

Leaving out a dead store may make another one dead, so elimination goes on in passes until none is
left or no further pass is allowed. Every pass but the first leaves out at least one instruction, so
that no more passes are needed than there are instructions.
-/

namespace Midend

open Lang

/-- The loop of `eliminate_dead_code` — the blocks before elimination and after each pass, of which
at most `allowed` are made. -/
def eliminationPasses : (allowed : Nat) → List Block → Except Fault (List (List Block))
  | 0, blocks => do
    let _ ← deadStores blocks
    return [blocks]
  | allowed + 1, blocks => do
    let dead ← deadStores blocks
    if dead.isEmpty then return [blocks]
    return blocks :: (← eliminationPasses allowed (removeStores blocks dead))

/-- The number of instructions in some blocks. -/
def instrCount (blocks : List Block) : Nat :=
  (blocks.flatMap Block.instrs).length

/-- `eliminate_dead_code` — the blocks before elimination and after each pass that the options
allow. -/
def eliminateDeadStores (blocks : List Block) (options : Options) :
    Except Fault (List (List Block)) :=
  let needed := instrCount blocks
  eliminationPasses (options.maxPasses.elim needed (min needed)) blocks

/-- The result of the last of several passes. -/
def lastPass (passes : List (List Block)) : List Block :=
  passes.getLast?.getD []

/-- A function with its passes. -/
structure FunctionPasses where
  function : Function
  passes : List (List Block)

/-- The function after a pass; when it had fewer, after its last one. -/
def FunctionPasses.after (elimination : FunctionPasses) (pass : Nat) : Function :=
  elimination.function.withBlocks
    ((elimination.passes[pass]?).getD (lastPass elimination.passes))

/-- `EliminationProgramResult` — the programs before and after each pass of an elimination. -/
structure Elimination where
  /-- The program before, then after each pass of any of its functions. -/
  passes : List Program
  /-- The program after the last pass of every function. -/
  converged : Program
deriving DecidableEq, Repr

/-- The passes of every function, side by side. -/
def Elimination.ofFunctions (functions : List FunctionPasses) : Elimination :=
  let count := ((functions.map fun one => one.passes.length).max?).getD 1
  { passes := (List.range count).map fun pass =>
      { functions := functions.map fun one => one.after pass }
    converged :=
      { functions := functions.map fun one => one.function.withBlocks (lastPass one.passes) } }

/-- `eliminate_dead_assignments` — eliminates the dead stores of every function. -/
def Lang.Program.eliminateDeadStores (program : Program) (options : Options) :
    Except Fault Elimination := do
  let functions ← program.functions.mapM fun function => do
    return { function, passes := ← Midend.eliminateDeadStores function.blocks options }
  return .ofFunctions functions

end Midend
