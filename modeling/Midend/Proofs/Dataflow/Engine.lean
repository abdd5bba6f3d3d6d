import Midend.Dataflow.Machine
import Midend.Proofs.Graph.Links
import Mathlib.Logic.Relation

/-!
# The data-flow engine

While a machine visits nodes, every visited node that does not wait has the input that its
predecessors give it now, and everything behind a visited node has been visited or waits. A machine
that has finished has therefore visited the nodes that are reached from the root, and is at a fixed
point.
-/

namespace Midend

namespace Worklist

/-- A node that is put on a worklist waits there. -/
theorem mem_push (worklist : Worklist) (node other : Nat) :
    other ∈ (worklist.push node).waiting ↔ other ∈ worklist.waiting ∨ other = node := by
  unfold push
  split
  next skipped =>
    rw [Bool.and_eq_true, List.contains_iff_mem] at skipped
    constructor
    · exact .inl
    · rintro (old | rfl)
      · exact old
      · exact skipped.2
  next => simp

/-- Nodes that are put on a worklist wait there. -/
theorem mem_pushAll (worklist : Worklist) (nodes : List Nat) (other : Nat) :
    other ∈ (worklist.pushAll nodes).waiting ↔ other ∈ worklist.waiting ∨ other ∈ nodes := by
  induction nodes generalizing worklist with
  | nil => simp [pushAll]
  | cons node nodes ih =>
    rw [pushAll, List.foldl_cons, ← pushAll, ih, mem_push, List.mem_cons, or_assoc]

/-- A worklist grows by no more nodes than are put on it. -/
theorem length_pushAll_le (worklist : Worklist) (nodes : List Nat) :
    (worklist.pushAll nodes).waiting.length ≤ worklist.waiting.length + nodes.length := by
  induction nodes generalizing worklist with
  | nil => exact Nat.le_refl _
  | cons node nodes ih =>
    have later := ih (worklist.push node)
    have once : (worklist.push node).waiting.length ≤ worklist.waiting.length + 1 := by
      unfold push
      split <;> simp
    rw [pushAll, List.foldl_cons, ← pushAll, List.length_cons]
    omega

end Worklist

/-- The nodes that paths from the root lead to. -/
def Graph.Reachable {ν : Type} (graph : Graph ν) (id : Nat) : Prop :=
  ∃ root, graph.root = some root ∧
    Relation.ReflTransGen (fun source target => target ∈ graph.nextOf source) root id

/-- The root is reachable. -/
theorem Graph.reachable_root {ν : Type} {graph : Graph ν} {root : Nat}
    (isRoot : graph.root = some root) : graph.Reachable root :=
  ⟨root, isRoot, .refl⟩

/-- What follows a reachable node is reachable. -/
theorem Graph.Reachable.next {ν : Type} {graph : Graph ν} {id next : Nat}
    (reachable : graph.Reachable id) (follows : next ∈ graph.nextOf id) : graph.Reachable next := by
  obtain ⟨root, isRoot, path⟩ := reachable
  exact ⟨root, isRoot, path.tail follows⟩

/-- What is reachable are nodes of the graph, as the root is one. -/
theorem Graph.Reachable.lt {ν : Type} {graph : Graph ν} {id root : Nat}
    (reachable : graph.Reachable id) (linked : graph.Linked) (isRoot : graph.root = some root)
    (inside : root < graph.size) : id < graph.size := by
  obtain ⟨start, isStart, path⟩ := reachable
  rw [isRoot, Option.some.injEq] at isStart
  subst isStart
  cases path with
  | refl => exact inside
  | tail _ follows => exact linked.next_lt _ id follows

namespace Machine

variable {ν φ : Type}

/-- A node has been visited. -/
def Visited (machine : Machine ν φ) (id : Nat) : Prop :=
  ∃ input, machine.inputs[id]? = some input

/-- What flows into a node depends on what flows out of its predecessors. -/
theorem input_congr {first second : Machine ν φ} (node : Node ν)
    (analyses : first.analysis = second.analysis) (graphs : first.graph = second.graph)
    (seeds : first.seeds = second.seeds)
    (outputs : ∀ id ∈ node.prev, first.outputs[id]? = second.outputs[id]?) :
    first.input node = second.input node := by
  have given : node.prev.filterMap (fun id => first.outputs[id]?) =
      node.prev.filterMap fun id => second.outputs[id]? := List.filterMap_congr outputs
  rw [input, input, incoming, incoming, analyses, graphs, seeds, given]

/-- What precedes a node of a linked graph is in the graph. -/
theorem missingPred?_eq_none {machine : Machine ν φ} (linked : machine.graph.Linked) {id : Nat}
    {node : Node ν} (found : machine.graph.node? id = some node) :
    machine.missingPred? node = none := by
  rw [missingPred?, List.find?_eq_none]
  intro pred member missing
  have follows := (linked.mem_prev_iff found pred).1 member
  rw [Graph.nextOf, Option.isNone_iff_eq_none.1 missing] at follows
  cases follows

variable [BEq φ]

/-- What a visit lets flow out of a node. -/
def outcome (machine : Machine ν φ) (node : Node ν) : List φ :=
  transfer machine.analysis node (machine.input node)

/-- Whether a visit changes what flows out of a node. -/
def changes (machine : Machine ν φ) (node : Node ν) : Bool :=
  match machine.outputs[node.id]? with
  | some previous => !Facts.same previous (machine.outcome node)
  | none => true

/-- The machine after a visit. -/
def afterVisit (machine : Machine ν φ) (node : Node ν) : Machine ν φ :=
  { machine with
    inputs := machine.inputs.insert node.id (machine.input node)
    outputs :=
      if machine.changes node then machine.outputs.insert node.id (machine.outcome node)
      else machine.outputs
    visits := machine.visits + 1 }

/-- The worklist after a visit, given the nodes that wait behind the visited one. -/
def worklistAfter (machine : Machine ν φ) (rest : Worklist) (node : Node ν) : Worklist :=
  if machine.changes node then rest.pushAll node.next else rest

/-- A visit in one equation. -/
theorem visit_eq (machine : Machine ν φ) (node : Node ν) :
    machine.visit node = (machine.afterVisit node, machine.changes node) := by
  unfold visit afterVisit changes outcome
  cases machine.outputs[node.id]? with
  | none => rfl
  | some previous =>
    by_cases same :
        Facts.same previous (transfer machine.analysis node (machine.input node)) = true <;>
      simp [same]

/-- Nothing is left to do when no node waits. -/
theorem drain_finished (allowed : Nat) (worklist : Worklist) (machine : Machine ν φ)
    (empty : worklist.waiting = []) : drain allowed worklist machine = (machine, .finished) := by
  have popped : worklist.pop? = none := by rw [Worklist.pop?, empty]
  cases allowed <;> rw [drain] <;> simp only [popped]

/-- A node that the graph does not have cannot be visited. -/
theorem drain_failed (allowed : Nat) (worklist : Worklist) (machine : Machine ν φ) (id : Nat)
    (others : List Nat) (waits : worklist.waiting = id :: others)
    (missing : machine.graph.node? id = none) :
    drain allowed worklist machine = (machine, .failed (.unknownNode id)) := by
  have popped : worklist.pop? = some (id, { worklist with waiting := others }) := by
    rw [Worklist.pop?, waits]
  cases allowed <;> rw [drain] <;> simp only [popped, missing]

/-- A node waits when no visit is allowed. -/
theorem drain_exhausted (worklist : Worklist) (machine : Machine ν φ) (id : Nat)
    (others : List Nat) (waits : worklist.waiting = id :: others) (node : Node ν)
    (found : machine.graph.node? id = some node) :
    drain 0 worklist machine = (machine, .exhausted) := by
  have popped : worklist.pop? = some (id, { worklist with waiting := others }) := by
    rw [Worklist.pop?, waits]
  rw [drain]
  simp only [popped, found]

/-- A node that follows one that the graph does not have cannot be visited. -/
theorem drain_orphaned (allowed : Nat) (worklist : Worklist) (machine : Machine ν φ) (id : Nat)
    (others : List Nat) (waits : worklist.waiting = id :: others) (node : Node ν)
    (found : machine.graph.node? id = some node) (pred : Nat)
    (missing : machine.missingPred? node = some pred) :
    drain (allowed + 1) worklist machine =
      ({ machine with visits := machine.visits + 1 }, .failed (.unknownNode pred)) := by
  have popped : worklist.pop? = some (id, { worklist with waiting := others }) := by
    rw [Worklist.pop?, waits]
  rw [drain]
  simp only [popped, found, missing]

/-- The first waiting node is visited, then the others. -/
theorem drain_visit (allowed : Nat) (worklist : Worklist) (machine : Machine ν φ) (id : Nat)
    (others : List Nat) (waits : worklist.waiting = id :: others) (node : Node ν)
    (found : machine.graph.node? id = some node) (complete : machine.missingPred? node = none) :
    drain (allowed + 1) worklist machine =
      drain allowed (machine.worklistAfter { worklist with waiting := others } node)
        (machine.afterVisit node) := by
  have popped : worklist.pop? = some (id, { worklist with waiting := others }) := by
    rw [Worklist.pop?, waits]
  rw [drain]
  simp only [popped, found, complete, visit_eq, worklistAfter]
  cases machine.changes node <;> rfl

/-- The cases in which visiting ends, and the one in which it goes on behind a visit. -/
theorem drain_induction {motive : Nat → Worklist → Machine ν φ → Prop}
    (finished : ∀ allowed worklist machine, worklist.waiting = [] →
      motive allowed worklist machine)
    (failed : ∀ allowed worklist machine id others, worklist.waiting = id :: others →
      machine.graph.node? id = none → motive allowed worklist machine)
    (exhausted : ∀ worklist machine id others node, worklist.waiting = id :: others →
      machine.graph.node? id = some node → motive 0 worklist machine)
    (orphaned : ∀ allowed worklist machine id others node pred, worklist.waiting = id :: others →
      machine.graph.node? id = some node → machine.missingPred? node = some pred →
      motive (allowed + 1) worklist machine)
    (visit : ∀ allowed worklist machine id others node, worklist.waiting = id :: others →
      machine.graph.node? id = some node → machine.missingPred? node = none →
      motive allowed (machine.worklistAfter { worklist with waiting := others } node)
        (machine.afterVisit node) → motive (allowed + 1) worklist machine)
    (allowed : Nat) (worklist : Worklist) (machine : Machine ν φ) :
    motive allowed worklist machine := by
  induction allowed generalizing worklist machine with
  | zero =>
    cases waits : worklist.waiting with
    | nil => exact finished 0 worklist machine waits
    | cons id others =>
      cases found : machine.graph.node? id with
      | none => exact failed 0 worklist machine id others waits found
      | some node => exact exhausted worklist machine id others node waits found
  | succ allowed ih =>
    cases waits : worklist.waiting with
    | nil => exact finished (allowed + 1) worklist machine waits
    | cons id others =>
      cases found : machine.graph.node? id with
      | none => exact failed (allowed + 1) worklist machine id others waits found
      | some node =>
        cases preds : machine.missingPred? node with
        | some pred => exact orphaned allowed worklist machine id others node pred waits found preds
        | none => exact visit allowed worklist machine id others node waits found preds (ih _ _)

/-- What holds of the worklist, the machine and the number of visits that are still allowed, at the
start and after every visit, holds at the end, if the graph is linked. -/
theorem drain_invariant {Holds : Nat → Worklist → Machine ν φ → Prop}
    (visit : ∀ allowed worklist machine id others node, Holds (allowed + 1) worklist machine →
      worklist.waiting = id :: others → machine.graph.node? id = some node →
      Holds allowed (machine.worklistAfter { worklist with waiting := others } node)
        (machine.afterVisit node))
    (allowed : Nat) (worklist : Worklist) (machine : Machine ν φ)
    (linked : machine.graph.Linked) (start : Holds allowed worklist machine) :
    ∃ left final, Holds left final (drain allowed worklist machine).1 ∧
      match (drain allowed worklist machine).2 with
      | .finished => final.waiting = []
      | .exhausted => left = 0 ∧ final.waiting ≠ []
      | .failed _ =>
        ∃ id ∈ final.waiting, (drain allowed worklist machine).1.graph.node? id = none := by
  induction allowed, worklist, machine using drain_induction with
  | finished allowed worklist machine waits =>
    rw [drain_finished _ worklist machine waits]
    exact ⟨allowed, worklist, start, waits⟩
  | failed allowed worklist machine id others waits missing =>
    rw [drain_failed _ worklist machine id others waits missing]
    exact ⟨allowed, worklist, start, id, by simp [waits], missing⟩
  | exhausted worklist machine id others node waits found =>
    rw [drain_exhausted worklist machine id others waits node found]
    exact ⟨0, worklist, start, rfl, by simp [waits]⟩
  | orphaned allowed worklist machine id others node pred waits found missing =>
    rw [missingPred?_eq_none linked found] at missing
    cases missing
  | visit allowed worklist machine id others node waits found complete ih =>
    rw [drain_visit allowed worklist machine id others waits node found complete]
    exact ih linked (visit allowed worklist machine id others node start waits found)

/-- What holds of the worklist, the machine and the number of visits that are still allowed when a
run over a linked graph starts from the root and after every visit, holds at the end of the run. -/
theorem runWithin_invariant {Holds : Nat → Worklist → Machine ν φ → Prop}
    (visit : ∀ allowed worklist machine id others node, Holds (allowed + 1) worklist machine →
      worklist.waiting = id :: others → machine.graph.node? id = some node →
      Holds allowed (machine.worklistAfter { worklist with waiting := others } node)
        (machine.afterVisit node))
    {machine : Machine ν φ} (linked : machine.graph.Linked) {root : Nat}
    (isRoot : machine.graph.root = some root) (allowed : Nat)
    (start : Holds allowed { order := machine.order, waiting := [root] } machine) :
    ∃ left final, Holds left final (machine.runWithin allowed).1 ∧
      match (machine.runWithin allowed).2 with
      | .finished => final.waiting = []
      | .exhausted => left = 0 ∧ final.waiting ≠ []
      | .failed _ =>
        ∃ id ∈ final.waiting, (machine.runWithin allowed).1.graph.node? id = none := by
  have ran : machine.runWithin allowed =
      drain allowed { order := machine.order, waiting := [root] } machine := by
    rw [runWithin, isRoot]
  rw [ran]
  exact drain_invariant visit allowed _ machine linked start

/-- A run that has finished does not go on when more visits are allowed. -/
theorem drain_of_finished (allowed : Nat) (worklist : Worklist) (machine : Machine ν φ)
    (finished : (drain allowed worklist machine).2 = .finished) {more : Nat}
    (atLeast : allowed ≤ more) : drain more worklist machine = drain allowed worklist machine := by
  induction allowed, worklist, machine using drain_induction generalizing more with
  | finished allowed worklist machine waits =>
    rw [drain_finished _ worklist machine waits, drain_finished _ worklist machine waits]
  | failed allowed worklist machine id others waits missing =>
    rw [drain_failed _ worklist machine id others waits missing] at finished
    cases finished
  | exhausted worklist machine id others node waits found =>
    rw [drain_exhausted worklist machine id others waits node found] at finished
    cases finished
  | orphaned allowed worklist machine id others node pred waits found missing =>
    rw [drain_orphaned allowed worklist machine id others waits node found pred missing] at finished
    cases finished
  | visit allowed worklist machine id others node waits found complete ih =>
    obtain ⟨less, rfl⟩ : ∃ less, more = less + 1 := ⟨more - 1, by omega⟩
    rw [drain_visit allowed worklist machine id others waits node found complete] at finished ⊢
    rw [drain_visit less worklist machine id others waits node found complete]
    exact ih finished (by omega)

/-- However many visits are allowed, a run that finishes with fewer ends alike. -/
theorem runWithin_of_finished {machine final : Machine ν φ} {allowed more : Nat}
    (finished : machine.runWithin allowed = (final, .finished)) (atLeast : allowed ≤ more) :
    machine.runWithin more = (final, .finished) := by
  rw [runWithin] at finished ⊢
  cases isRoot : machine.graph.root with
  | none => simp [isRoot] at finished
  | some root =>
    simp only [isRoot] at finished ⊢
    rw [drain_of_finished allowed _ machine (by rw [finished]) atLeast, finished]

/-- What flows out of a node is what a transfer gives, or holds the same facts. -/
def Settles (output transferred : List φ) : Prop :=
  output = transferred ∨ Facts.same output transferred = true

/-- A machine that has visited nodes reached from the root. Those that do not wait have the input
that their predecessors give now, and what is behind visited nodes was visited or waits. -/
structure Explored (waiting : List Nat) (machine : Machine ν φ) : Prop where
  present : ∀ id, machine.Visited id → ∃ node, machine.graph.node? id = some node
  outputs_iff : ∀ id, machine.Visited id ↔ ∃ output, machine.outputs[id]? = some output
  current : ∀ id node input, machine.graph.node? id = some node →
    machine.inputs[id]? = some input → id ∉ waiting → input = machine.input node
  settled : ∀ id node input output, machine.graph.node? id = some node →
    machine.inputs[id]? = some input → machine.outputs[id]? = some output →
    Settles output (transfer machine.analysis node input)
  onward : ∀ id, machine.Visited id → ∀ next ∈ machine.graph.nextOf id,
    machine.Visited next ∨ next ∈ waiting
  root : ∀ root, machine.graph.root = some root → machine.Visited root ∨ root ∈ waiting
  reachable : ∀ id, machine.Visited id ∨ id ∈ waiting → machine.graph.Reachable id

section Visit

variable {machine : Machine ν φ} {node : Node ν}

/-- What flowed into the visited node is recorded, and nothing else. -/
theorem inputs_afterVisit (machine : Machine ν φ) (node : Node ν) (id : Nat) :
    (machine.afterVisit node).inputs[id]? =
      if node.id = id then some (machine.input node) else machine.inputs[id]? := by
  simp only [afterVisit, Std.TreeMap.getElem?_insert, Std.LawfulEqCmp.compare_eq_iff_eq]

/-- After a visit the visited node has been visited too, and no other. -/
theorem visited_afterVisit (machine : Machine ν φ) (node : Node ν) (id : Nat) :
    (machine.afterVisit node).Visited id ↔ machine.Visited id ∨ id = node.id := by
  simp only [Visited, inputs_afterVisit]
  by_cases same : node.id = id
  · simp [same]
  · simp [same, Ne.symm same]

/-- What flows out of other nodes is left as it is. -/
theorem outputs_afterVisit_of_ne (machine : Machine ν φ) (node : Node ν) {id : Nat}
    (other : node.id ≠ id) : (machine.afterVisit node).outputs[id]? = machine.outputs[id]? := by
  simp only [afterVisit]
  split
  · rw [Std.TreeMap.getElem?_insert, if_neg (by rwa [Std.LawfulEqCmp.compare_eq_iff_eq])]
  · rfl

/-- What flows out of the visited node settles. -/
theorem outputs_afterVisit_self (machine : Machine ν φ) (node : Node ν) :
    ∃ output, (machine.afterVisit node).outputs[node.id]? = some output ∧
      Settles output (machine.outcome node) := by
  simp only [afterVisit]
  split
  next => exact ⟨_, Std.TreeMap.getElem?_insert_self, .inl rfl⟩
  next unchanged =>
    rw [changes] at unchanged
    split at unchanged
    next previous found =>
      have same : Facts.same previous (machine.outcome node) = true := by simpa using unchanged
      exact ⟨previous, found, .inr same⟩
    next => simp at unchanged

/-- What flows out of a visited node is what was there, or the outcome of the visit. -/
theorem outputs_afterVisit_cases (machine : Machine ν φ) (node : Node ν) {source : Nat}
    {output : List φ} (after : (machine.afterVisit node).outputs[source]? = some output) :
    machine.outputs[source]? = some output ∨ source = node.id ∧ output = machine.outcome node := by
  simp only [afterVisit] at after
  split at after
  · rw [Std.TreeMap.getElem?_insert] at after
    split at after
    next same =>
      rw [Std.LawfulEqCmp.compare_eq_iff_eq] at same
      exact .inr ⟨same.symm, (Option.some.inj after).symm⟩
    next => exact .inl after
  · exact .inl after

/-- A visit does not change what flows into nodes that do not wait after it. -/
theorem input_afterVisit (linked : machine.graph.Linked)
    (found : machine.graph.node? node.id = some node) {other : Nat} {otherNode : Node ν}
    (foundOther : machine.graph.node? other = some otherNode)
    (settled : machine.changes node = true → other ∉ node.next) :
    (machine.afterVisit node).input otherNode = machine.input otherNode := by
  refine input_congr otherNode rfl rfl rfl fun source member => ?_
  by_cases isSource : node.id = source
  · subst isSource
    have follows : other ∈ node.next := by
      rwa [linked.mem_prev_iff foundOther, Graph.nextOf_eq found] at member
    have unchanged : ¬machine.changes node = true := fun changed => settled changed follows
    simp only [afterVisit, if_neg unchanged]
  · exact outputs_afterVisit_of_ne machine node isSource

/-- The nodes that wait after a visit are the others and, if it changed what flows out, those behind
the visited one. -/
theorem mem_worklistAfter (machine : Machine ν φ) (rest : Worklist) (node : Node ν) (other : Nat) :
    other ∈ (machine.worklistAfter rest node).waiting ↔
      other ∈ rest.waiting ∨ machine.changes node = true ∧ other ∈ node.next := by
  unfold worklistAfter
  split
  next changed => simp [Worklist.mem_pushAll, changed]
  next unchanged => simp [unchanged]

section Step

variable {worklist : Worklist} {others : List Nat}

/-- What was visited or waited before a visit has been visited or waits after it. -/
theorem ahead_of_visit (waits : worklist.waiting = node.id :: others) {other : Nat}
    (was : machine.Visited other ∨ other ∈ worklist.waiting) :
    (machine.afterVisit node).Visited other ∨
      other ∈ (machine.worklistAfter { worklist with waiting := others } node).waiting := by
  rw [visited_afterVisit, mem_worklistAfter]
  rw [waits, List.mem_cons] at was
  tauto

/-- After a visit the nodes that do not wait have the input that their predecessors give. -/
theorem Explored.current_visit (linked : machine.graph.Linked)
    (explored : Explored worklist.waiting machine) (waits : worklist.waiting = node.id :: others)
    (found : machine.graph.node? node.id = some node) {other : Nat} {otherNode : Node ν}
    {input : List φ} (foundOther : machine.graph.node? other = some otherNode)
    (isInput : (machine.afterVisit node).inputs[other]? = some input)
    (done : other ∉ (machine.worklistAfter { worklist with waiting := others } node).waiting) :
    input = (machine.afterVisit node).input otherNode := by
  rw [mem_worklistAfter, not_or, not_and] at done
  rw [input_afterVisit linked found foundOther done.2]
  rw [inputs_afterVisit] at isInput
  split at isInput
  next same =>
    subst same
    obtain rfl : node = otherNode := Option.some.inj (found.symm.trans foundOther)
    exact (Option.some.inj isInput).symm
  next different =>
    refine explored.current other otherNode input foundOther isInput ?_
    rw [waits, List.mem_cons, not_or]
    exact ⟨Ne.symm different, done.1⟩

/-- After a visit what flows out of visited nodes has settled. -/
theorem Explored.settled_visit (explored : Explored worklist.waiting machine)
    (found : machine.graph.node? node.id = some node) {other : Nat} {otherNode : Node ν}
    {input output : List φ} (foundOther : machine.graph.node? other = some otherNode)
    (isInput : (machine.afterVisit node).inputs[other]? = some input)
    (isOutput : (machine.afterVisit node).outputs[other]? = some output) :
    Settles output (transfer machine.analysis otherNode input) := by
  rw [inputs_afterVisit] at isInput
  split at isInput
  next same =>
    subst same
    obtain ⟨settling, isSettling, settles⟩ := outputs_afterVisit_self machine node
    obtain rfl : node = otherNode := Option.some.inj (found.symm.trans foundOther)
    rw [isSettling, Option.some.injEq] at isOutput
    rw [Option.some.injEq] at isInput
    subst isInput isOutput
    exact settles
  next different =>
    rw [outputs_afterVisit_of_ne machine node different] at isOutput
    exact explored.settled other otherNode input output foundOther isInput isOutput

/-- After a visit what is behind visited nodes was visited or waits. -/
theorem Explored.onward_visit (explored : Explored worklist.waiting machine)
    (waits : worklist.waiting = node.id :: others)
    (found : machine.graph.node? node.id = some node) {other next : Nat}
    (visited : (machine.afterVisit node).Visited other)
    (follows : next ∈ machine.graph.nextOf other) :
    (machine.afterVisit node).Visited next ∨
      next ∈ (machine.worklistAfter { worklist with waiting := others } node).waiting := by
  by_cases known : machine.Visited other
  · exact ahead_of_visit waits (explored.onward other known next follows)
  · -- The first visit to a node always changes what flows out of it.
    have isNode : other = node.id := by
      rw [visited_afterVisit] at visited
      exact visited.resolve_left known
    subst isNode
    have changed : machine.changes node = true := by
      have fresh : machine.outputs[node.id]? = none := by
        cases kept : machine.outputs[node.id]? with
        | none => rfl
        | some output =>
          rw [explored.outputs_iff] at known
          exact absurd ⟨output, kept⟩ known
      rw [changes, fresh]
    rw [Graph.nextOf_eq found] at follows
    exact .inr ((mem_worklistAfter machine _ node next).2 (.inr ⟨changed, follows⟩))

/-- A visit keeps a machine explored. -/
theorem Explored.visit (linked : machine.graph.Linked)
    (explored : Explored worklist.waiting machine) (waits : worklist.waiting = node.id :: others)
    (found : machine.graph.node? node.id = some node) :
    Explored (machine.worklistAfter { worklist with waiting := others } node).waiting
      (machine.afterVisit node) := by
  constructor
  · intro other visited
    rcases (visited_afterVisit machine node other).1 visited with known | rfl
    · exact explored.present other known
    · exact ⟨node, found⟩
  · intro other
    rw [visited_afterVisit]
    by_cases same : node.id = other
    · subst same
      obtain ⟨output, isOutput, -⟩ := outputs_afterVisit_self machine node
      simp [isOutput]
    · rw [outputs_afterVisit_of_ne machine node same, ← explored.outputs_iff]
      simp [Ne.symm same]
  · intro other otherNode input foundOther isInput done
    exact explored.current_visit linked waits found foundOther isInput done
  · intro other otherNode input output foundOther isInput isOutput
    exact explored.settled_visit found foundOther isInput isOutput
  · intro other visited next follows
    exact explored.onward_visit waits found visited follows
  · intro root isRoot
    exact ahead_of_visit waits (explored.root root isRoot)
  · intro other present
    have reachable : machine.graph.Reachable node.id :=
      explored.reachable node.id (.inr (by simp [waits]))
    rw [visited_afterVisit, mem_worklistAfter] at present
    rcases present with (known | rfl) | (waiting | ⟨-, follows⟩)
    · exact explored.reachable other (.inl known)
    · exact reachable
    · exact explored.reachable other (.inr (by simp [waits, waiting]))
    · exact reachable.next (by rwa [Graph.nextOf_eq found])

end Step

end Visit

/-- A machine that has visited nothing is explored when the root waits. -/
theorem Explored.start {machine : Machine ν φ} {root : Nat}
    (isRoot : machine.graph.root = some root) (inputs : machine.inputs = ∅)
    (outputs : machine.outputs = ∅) : Explored [root] machine := by
  have unvisited (id : Nat) : ¬machine.Visited id := by
    rintro ⟨input, found⟩
    simp [inputs] at found
  constructor
  · intro id visited
    exact absurd visited (unvisited id)
  · intro id
    simp [unvisited, outputs]
  · intro id node input _ found
    simp [inputs] at found
  · intro id node input output _ found
    simp [inputs] at found
  · intro id visited
    exact absurd visited (unvisited id)
  · intro other isOther
    rw [isRoot, Option.some.injEq] at isOther
    exact .inr (by simp [isOther])
  · rintro id (visited | waits)
    · exact absurd visited (unvisited id)
    · rw [List.mem_singleton.1 waits]
      exact Graph.reachable_root isRoot

/-- When no node waits, exactly the reachable nodes have been visited. -/
theorem Explored.visited_iff {machine : Machine ν φ} (explored : Explored [] machine) (id : Nat) :
    machine.Visited id ↔ machine.graph.Reachable id := by
  constructor
  · exact fun visited => explored.reachable id (.inl visited)
  · rintro ⟨root, isRoot, path⟩
    induction path with
    | refl => exact (explored.root root isRoot).resolve_right (by simp)
    | tail _ follows ih => exact (explored.onward _ ih _ follows).resolve_right (by simp)

end Machine

end Midend
