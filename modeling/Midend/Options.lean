/-!
# Options

What can be chosen about the analyses and transformations. None of the choices changes what a
program means.
-/

namespace Midend

/-- `WorklistOrder` — the order in which a data-flow analysis takes nodes off its worklist. -/
inductive Order
  /-- First in, first out; a node may wait more than once. -/
  | fifo
  /-- First in, first out; a node that waits already is not added again. -/
  | dedup
deriving DecidableEq, Repr, Inhabited

/-- `Config` — the choices for a run. -/
structure Options where
  order : Order := .fifo
  /-- Whether value numbering takes operands of commutative operations in any order. -/
  commutative : Bool := false
  /-- The most passes of dead store elimination; without it, as many as are needed. -/
  maxPasses : Option Nat := none
deriving DecidableEq, Repr, Inhabited

end Midend
