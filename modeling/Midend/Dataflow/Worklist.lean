import Midend.Options

/-!
# Worklists

The nodes waiting to be visited, first in, first out. Under `Order.dedup` a node waits at most
once.
-/

namespace Midend

/-- `WorkList` — waiting nodes in the order in which they will be taken. -/
structure Worklist where
  order : Order
  waiting : List Nat := []
deriving DecidableEq, Repr

namespace Worklist

/-- `WorkList::push` — puts a node at the end, unless the order forbids it. -/
def push (worklist : Worklist) (node : Nat) : Worklist :=
  if worklist.order == .dedup && worklist.waiting.contains node then worklist
  else { worklist with waiting := worklist.waiting ++ [node] }

/-- Puts several nodes at the end. -/
def pushAll (worklist : Worklist) (nodes : List Nat) : Worklist :=
  nodes.foldl push worklist

/-- `WorkList::pop` — takes the first node. -/
def pop? (worklist : Worklist) : Option (Nat × Worklist) :=
  match worklist.waiting with
  | [] => none
  | node :: waiting => some (node, { worklist with waiting })

end Worklist

end Midend
