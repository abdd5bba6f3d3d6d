import Midend.Proofs.Dataflow.GenKill

/-!
# Facts and paths

What a gen-kill analysis finds to flow into a node is what comes there along a path: the answer that
prevails is given in a seed or caused by a node, and no node on the way reverses it. For an analysis
that merges by union, exactly the facts flow in that arrive along such a path.
-/

namespace Midend.Machine

variable {ν φ : Type}

/-- A fact passes a node on the way to the next one. -/
def Carries (machine : Machine ν φ) (kills : Node ν → φ → Bool) (fact : φ)
    (source target : Nat) : Prop :=
  (∀ node, machine.graph.node? source = some node → kills node fact = false) ∧
    target ∈ machine.graph.nextOf source

section Spreads

variable [BEq φ]

/-- The answer that prevails spreads to a node along a path from a reachable node, which it enters
from outside or which causes it, through nodes that do not reverse it. -/
inductive Spreads (machine : Machine ν φ) (answer : Bool) (causes reverses : Node ν → φ → Bool)
    (fact : φ) (id : Nat) : Prop
  | entered {start : Nat} {facts : List φ} (reachable : machine.graph.Reachable start)
    (enters : facts ∈ machine.outside start) (given : Facts.has facts fact = answer)
    (path : Relation.ReflTransGen (machine.Carries reverses fact) start id) :
    Spreads machine answer causes reverses fact id
  | caused {source first : Nat} {node : Node ν} (reachable : machine.graph.Reachable source)
    (found : machine.graph.node? source = some node) (caused : causes node fact = true)
    (follows : first ∈ machine.graph.nextOf source)
    (path : Relation.ReflTransGen (machine.Carries reverses fact) first id) :
    Spreads machine answer causes reverses fact id

variable {answer : Bool} {causes reverses : Node ν → φ → Bool}

/-- An answer that spreads to a node which does not reverse it spreads to the next one. -/
theorem Spreads.next {machine : Machine ν φ} {fact : φ} {source target : Nat}
    (spreads : machine.Spreads answer causes reverses fact source)
    (carries : machine.Carries reverses fact source target) :
    machine.Spreads answer causes reverses fact target := by
  cases spreads with
  | entered reachable enters given path => exact .entered reachable enters given (path.tail carries)
  | caused reachable found caused follows path =>
    exact .caused reachable found caused follows (path.tail carries)

/-- Where an answer spreads depends on the graph and the seeds. -/
theorem Spreads.congr {first second : Machine ν φ} {fact : φ} {id : Nat}
    (graphs : first.graph = second.graph) (seeds : first.seeds = second.seeds)
    (spreads : first.Spreads answer causes reverses fact id) :
    second.Spreads answer causes reverses fact id := by
  have carries : first.Carries reverses fact = second.Carries reverses fact := by
    funext source target
    rw [Carries, Carries, graphs]
  cases spreads with
  | entered reachable enters given path =>
    rw [graphs] at reachable
    rw [outside, graphs, seeds] at enters
    rw [carries] at path
    exact .entered reachable enters given path
  | caused reachable found caused follows path =>
    rw [graphs] at reachable found follows
    rw [carries] at path
    exact .caused reachable found caused follows path

/-- An answer leaves a node that causes it, or to which it spreads and which does not reverse it. -/
def Leaves (machine : Machine ν φ) (answer : Bool) (causes reverses : Node ν → φ → Bool) (fact : φ)
    (node : Node ν) : Prop :=
  causes node fact = true ∨
    machine.Spreads answer causes reverses fact node.id ∧ reverses node fact = false

/-- An answer that leaves a reachable node spreads to the next one. -/
theorem Leaves.spreads {machine : Machine ν φ} {fact : φ} {source target : Nat} {node : Node ν}
    (leaves : machine.Leaves answer causes reverses fact node)
    (found : machine.graph.node? source = some node) (same : node.id = source)
    (reachable : machine.graph.Reachable source) (follows : target ∈ machine.graph.nextOf source) :
    machine.Spreads answer causes reverses fact target := by
  rcases leaves with caused | ⟨spreads, kept⟩
  · exact .caused reachable found caused follows .refl
  · rw [same] at spreads
    refine spreads.next ⟨fun other foundOther => ?_, follows⟩
    rw [found, Option.some.injEq] at foundOther
    exact foundOther ▸ kept

/-- Every answer that a machine has found to prevail has spread along a path. -/
structure Justified (answer : Bool) (causes reverses : Node ν → φ → Bool)
    (machine : Machine ν φ) : Prop where
  inputs : ∀ (id : Nat) (input : List φ), machine.inputs[id]? = some input → ∀ fact,
    Facts.has input fact = answer → machine.Spreads answer causes reverses fact id
  outputs : ∀ id node (output : List φ), machine.graph.node? id = some node →
    machine.outputs[id]? = some output → ∀ fact, Facts.has output fact = answer →
    machine.Leaves answer causes reverses fact node

variable {machine : Machine ν φ}

/-- A machine that has visited nothing has nothing to justify. -/
theorem Justified.start (inputs : machine.inputs = ∅) (outputs : machine.outputs = ∅) :
    Justified answer causes reverses machine := by
  constructor <;> simp [inputs, outputs]

/-- An answer that prevails at a visit to a reachable node has spread there. -/
theorem Justified.spreads_of_input (justified : Justified answer causes reverses machine)
    (linked : machine.graph.Linked) {waiting : List Nat} (explored : Explored waiting machine)
    (prevails : machine.analysis.Prevails answer causes reverses) {node : Node ν}
    (found : machine.graph.node? node.id = some node)
    (reachable : machine.graph.Reachable node.id) (entered : machine.incoming node ≠ []) {fact : φ}
    (flows : Facts.has (machine.input node) fact = answer) :
    machine.Spreads answer causes reverses fact node.id := by
  obtain ⟨facts, member, given⟩ := (has_input_iff prevails entered fact).1 flows
  rw [incoming_eq, List.mem_append] at member
  rcases member with enters | behind
  · exact .entered reachable enters given .refl
  · obtain ⟨source, before, isOutput⟩ := List.mem_filterMap.1 behind
    have follows : node.id ∈ machine.graph.nextOf source :=
      (linked.mem_prev_iff found source).1 before
    have visited : machine.Visited source := (explored.outputs_iff source).2 ⟨facts, isOutput⟩
    obtain ⟨other, foundSource⟩ := explored.present source visited
    have leaves := justified.outputs source other facts foundSource isOutput fact given
    exact leaves.spreads foundSource (linked.id_eq source other foundSource)
      (explored.reachable source (.inl visited)) follows

/-- A visit to a reachable node keeps everything justified. -/
theorem Justified.visit (justified : Justified answer causes reverses machine)
    (linked : machine.graph.Linked) {waiting : List Nat} (explored : Explored waiting machine)
    (prevails : machine.analysis.Prevails answer causes reverses) {node : Node ν}
    (found : machine.graph.node? node.id = some node)
    (reachable : machine.graph.Reachable node.id) (entered : machine.incoming node ≠ []) :
    Justified answer causes reverses (machine.afterVisit node) := by
  have after {fact : φ} {id : Nat} (spreads : machine.Spreads answer causes reverses fact id) :
      (machine.afterVisit node).Spreads answer causes reverses fact id :=
    have graphs : machine.graph = (machine.afterVisit node).graph := rfl
    spreads.congr graphs rfl
  have spreads (fact : φ) (flows : Facts.has (machine.input node) fact = answer) :
      (machine.afterVisit node).Spreads answer causes reverses fact node.id :=
    after (justified.spreads_of_input linked explored prevails found reachable entered flows)
  constructor
  · intro id input isInput fact given
    rw [inputs_afterVisit] at isInput
    split at isInput
    next same =>
      subst same
      rw [← Option.some.inj isInput] at given
      exact spreads fact given
    next => exact after (justified.inputs id input isInput fact given)
  · intro id other output foundOther isOutput fact given
    rcases outputs_afterVisit_cases machine node isOutput with old | ⟨rfl, rfl⟩
    · exact (justified.outputs id other output foundOther old fact given).imp_right
        fun ⟨spread, kept⟩ => ⟨after spread, kept⟩
    · obtain rfl : node = other := Option.some.inj (found.symm.trans foundOther)
      rcases (prevails.transfer_iff node _ fact).1 given with caused | ⟨flows, kept⟩
      · exact .inl caused
      · exact .inr ⟨spreads fact flows, kept⟩

end Spreads

section FixedPoint

variable [BEq φ] [EquivBEq φ] {answer : Bool} {causes reverses : Node ν → φ → Bool}
  {machine : Machine ν φ}

/-- At a fixed point, an answer flows out of a node that causes it, or into which it flows and which
does not reverse it. -/
theorem FixedPoint.has_output_iff (rests : FixedPoint machine)
    (prevails : machine.analysis.Prevails answer causes reverses) {id : Nat} {node : Node ν}
    (found : machine.graph.node? id = some node) {input output : List φ}
    (isInput : machine.inputs[id]? = some input) (isOutput : machine.outputs[id]? = some output)
    (fact : φ) :
    Facts.has output fact = answer ↔
      causes node fact = true ∨ Facts.has input fact = answer ∧ reverses node fact = false := by
  have agree : Facts.has output fact = Facts.has (transfer machine.analysis node input) fact := by
    rw [Bool.eq_iff_iff, rests.output_iff id node input output found isInput isOutput fact,
      has_transfer]
    simp
  rw [agree, prevails.transfer_iff]

omit [EquivBEq φ] in
/-- At a fixed point, an answer that comes in from outside or from a predecessor flows in. -/
theorem FixedPoint.has_input_of_mem (rests : FixedPoint machine)
    (prevails : machine.analysis.Prevails answer causes reverses) {id : Nat} {node : Node ν}
    (found : machine.graph.node? id = some node) {input facts : List φ}
    (isInput : machine.inputs[id]? = some input)
    (member : facts ∈ machine.outside id ++
      node.prev.filterMap fun source => machine.outputs[source]?) {fact : φ}
    (given : Facts.has facts fact = answer) : Facts.has input fact = answer := by
  rw [rests.input_eq id node input found isInput,
    prevails.merge_iff _ _ (List.ne_nil_of_mem member)]
  exact ⟨facts, member, given⟩

/-- At a fixed point, an answer that flows out of a node flows into the next one. -/
theorem FixedPoint.flows_on (rests : FixedPoint machine) (linked : machine.graph.Linked)
    (prevails : machine.analysis.Prevails answer causes reverses) {source target : Nat}
    {node : Node ν} (found : machine.graph.node? source = some node) {input after : List φ}
    (isInput : machine.inputs[source]? = some input)
    (follows : target ∈ machine.graph.nextOf source)
    (isAfter : machine.inputs[target]? = some after) {fact : φ}
    (leaves : causes node fact = true ∨
      Facts.has input fact = answer ∧ reverses node fact = false) :
    Facts.has after fact = answer := by
  have reachable := (rests.inputs_iff source).1 ⟨input, isInput⟩
  obtain ⟨output, isOutput⟩ := (rests.outputs_iff source).2 reachable
  have given := (rests.has_output_iff prevails found isInput isOutput fact).2 leaves
  obtain ⟨other, foundOther⟩ := machine.graph.exists_node? (linked.next_lt source target follows)
  have before : source ∈ other.prev := (linked.mem_prev_iff foundOther source).2 follows
  exact rests.has_input_of_mem prevails foundOther isAfter
    (List.mem_append_right _ (List.mem_filterMap.2 ⟨source, before, isOutput⟩)) given

/-- At a fixed point, an answer that spreads along a path flows in. -/
theorem FixedPoint.has_input_of_spreads (rests : FixedPoint machine)
    (linked : machine.graph.Linked) (prevails : machine.analysis.Prevails answer causes reverses)
    {fact : φ} {id : Nat} (spreads : machine.Spreads answer causes reverses fact id)
    {input : List φ} (isInput : machine.inputs[id]? = some input) :
    Facts.has input fact = answer := by
  have along {start finish : Nat} (reachable : machine.graph.Reachable start)
      (here : ∀ input, machine.inputs[start]? = some input → Facts.has input fact = answer)
      (path : Relation.ReflTransGen (machine.Carries reverses fact) start finish) :
      machine.graph.Reachable finish ∧
        ∀ input, machine.inputs[finish]? = some input → Facts.has input fact = answer := by
    induction path with
    | refl => exact ⟨reachable, here⟩
    | @tail source target _ carries ih =>
      obtain ⟨reached, flows⟩ := ih
      obtain ⟨kept, follows⟩ := carries
      refine ⟨reached.next follows, fun after isAfter => ?_⟩
      obtain ⟨node, found⟩ := rests.present source reached
      obtain ⟨before, isBefore⟩ := (rests.inputs_iff source).2 reached
      exact rests.flows_on linked prevails found isBefore follows isAfter
        (.inr ⟨flows before isBefore, kept node found⟩)
  cases spreads with
  | @entered start facts reachable enters given path =>
    refine (along reachable (fun other isOther => ?_) path).2 input isInput
    obtain ⟨node, found⟩ := rests.present start reachable
    exact rests.has_input_of_mem prevails found isOther (List.mem_append_left _ enters) given
  | @caused source first node reachable found caused follows path =>
    obtain ⟨before, isBefore⟩ := (rests.inputs_iff source).2 reachable
    exact (along (reachable.next follows) (fun after isAfter =>
      rests.flows_on linked prevails found isBefore follows isAfter (.inl caused)) path).2
      input isInput

end FixedPoint

section Runs

variable [BEq φ] [EquivBEq φ] {answer : Bool} {causes reverses : Node ν → φ → Bool}
  {initial machine : Machine ν φ}

/-- What holds while a machine runs that started as another, with the given number of visits left:
it is on its way and settling, the answers that it has found to prevail are justified, and the
visits that are left are enough. -/
structure Running (answer : Bool) (causes reverses : Node ν → φ → Bool) (initial : Machine ν φ)
    (left : Nat) (worklist : Worklist) (machine : Machine ν φ) : Prop where
  underway : Underway initial worklist.waiting machine
  settling : Settling answer machine
  justified : Justified answer causes reverses machine
  enough : potential answer worklist.waiting machine ≤ left
  counted : machine.visits + left = initial.visits + initial.limit

omit [EquivBEq φ] in
/-- A machine that has visited nothing yet runs from its root. -/
theorem Running.start {root : Nat} (isRoot : machine.graph.root = some root)
    (inputs : machine.inputs = ∅) (outputs : machine.outputs = ∅) :
    Running answer causes reverses machine machine.limit
      { order := machine.order, waiting := [root] } machine where
  underway := .start isRoot inputs outputs
  settling := .start outputs
  justified := .start inputs outputs
  enough := Nat.le_of_eq (potential_start answer machine outputs root)
  counted := rfl

/-- A visit keeps a machine running. -/
theorem Running.visit (linked : initial.graph.Linked)
    (prevails : initial.analysis.Prevails answer causes reverses) {left : Nat} {worklist : Worklist}
    {id : Nat} {others : List Nat} {node : Node ν}
    (running : Running answer causes reverses initial (left + 1) worklist machine)
    (waits : worklist.waiting = id :: others) (found : machine.graph.node? id = some node) :
    Running answer causes reverses initial left
      (machine.worklistAfter { worklist with waiting := others } node)
      (machine.afterVisit node) := by
  have underway := running.underway
  have linkedHere : machine.graph.Linked := by rwa [underway.graph_eq]
  rw [← underway.analysis_eq] at prevails
  obtain rfl := linkedHere.id_eq id node found
  have isWaiting : node.id ∈ worklist.waiting := by simp [waits]
  have reachable := underway.explored.reachable node.id (.inr isWaiting)
  have entered := underway.incoming_ne_nil linked found (.inr isWaiting)
  have less := running.settling.potential_visit underway linked prevails waits found
  have enough := running.enough
  have counted := running.counted
  have visits : (machine.afterVisit node).visits = machine.visits + 1 := rfl
  exact {
    underway := underway.visit linked waits found
    settling := running.settling.visit underway linked prevails found isWaiting
    justified := running.justified.visit linkedHere underway.explored prevails found reachable
      entered
    enough := by omega
    counted := by omega }

/-- When nothing waits, the answer that prevails flows in where it spreads, and nowhere else. -/
theorem Running.exact (linked : initial.graph.Linked)
    (prevails : initial.analysis.Prevails answer causes reverses) {left : Nat} {worklist : Worklist}
    (running : Running answer causes reverses initial left worklist machine)
    (finished : worklist.waiting = []) {id : Nat} {input : List φ}
    (isInput : machine.inputs[id]? = some input) (fact : φ) :
    Facts.has input fact = answer ↔ initial.Spreads answer causes reverses fact id := by
  have underway : Underway initial [] machine := finished ▸ running.underway
  have rests := underway.fixedPoint linked
  have graphs := underway.graph_eq
  have seeds := underway.seeds_eq
  rw [← graphs] at linked
  rw [← underway.analysis_eq] at prevails
  constructor
  · exact fun given => (running.justified.inputs id input isInput fact given).congr graphs seeds
  · exact fun spreads =>
      rests.has_input_of_spreads linked prevails (spreads.congr graphs.symm seeds.symm) isInput

/-- A run ends within its limit when one answer prevails. It then is at a fixed point, and the
answer that prevails flows into exactly the nodes to which it spreads. -/
theorem run_exact (linked : machine.graph.Linked)
    (prevails : machine.analysis.Prevails answer causes reverses) {root : Nat}
    (isRoot : machine.graph.root = some root) (inside : root < machine.graph.size)
    (inputs : machine.inputs = ∅) (outputs : machine.outputs = ∅) :
    ∃ final, machine.run = (final, .finished) ∧ final.visits ≤ machine.visits + machine.limit ∧
      Underway machine [] final ∧
      ∀ id input, final.inputs[id]? = some input → ∀ fact,
        Facts.has input fact = answer ↔ machine.Spreads answer causes reverses fact id := by
  have visit (left : Nat) (worklist : Worklist) (current : Machine ν φ) (id : Nat)
      (others : List Nat) (node : Node ν)
      (running : Running answer causes reverses machine (left + 1) worklist current)
      (waits : worklist.waiting = id :: others) (found : current.graph.node? id = some node) :=
    running.visit linked prevails waits found
  have ended := runWithin_invariant visit linked isRoot machine.limit
    (.start isRoot inputs outputs)
  rcases same : machine.runWithin machine.limit with ⟨final, outcome⟩
  rw [same] at ended
  obtain ⟨left, worklist, running, ending⟩ := ended
  cases outcome with
  | failed fault =>
    obtain ⟨id, waits, missing⟩ := ending
    obtain ⟨node, found⟩ := running.underway.exists_node? linked isRoot inside waits
    cases found.symm.trans missing
  | exhausted =>
    -- Something waits that no visit is left for.
    have enough := running.enough
    have some_wait : 0 < worklist.waiting.length := List.length_pos_iff.2 ending.2
    rw [ending.1, potential] at enough
    omega
  | finished =>
    have counted : final.visits + left = machine.visits + machine.limit := running.counted
    exact ⟨final, same, by omega, ending ▸ running.underway, fun id input isInput =>
      running.exact linked prevails ending isInput⟩

end Runs

variable [BEq φ] [LawfulBEq φ] {machine : Machine ν φ} {kills : Node ν → φ → Bool}

end Midend.Machine
