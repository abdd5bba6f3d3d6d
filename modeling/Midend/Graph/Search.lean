/-!
# Depth-first search

What can be reached from some places by following a successor function, in the order of a
depth-first search that takes the successors of a place in order. A budget bounds the number of
places taken up, repetitions included; the number of starting places and of all edges is always
enough.
-/

namespace Midend

/-- The places visited so far, followed by those reached from the pending ones. -/
def search (next : Nat → List Nat) : (budget : Nat) → (pending visited : List Nat) → List Nat
  | 0, _, visited => visited
  | _, [], visited => visited
  | budget + 1, place :: pending, visited =>
    if visited.contains place then search next budget pending visited
    else search next budget (next place ++ pending) (visited ++ [place])

/-- What is reached from the starting places in a graph given by the successors of each place,
going on only from places that let control through. -/
def reachedThrough (passes : Nat → Bool) (successors : List (List Nat)) (start : List Nat) :
    List Nat :=
  let next (place : Nat) := if passes place then (successors[place]?).getD [] else []
  search next (start.length + successors.flatten.length) start []

end Midend
