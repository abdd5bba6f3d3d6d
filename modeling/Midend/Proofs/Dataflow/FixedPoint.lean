import Midend.Proofs.Dataflow.Engine
import Midend.Proofs.Dataflow.Facts

/-!
# Fixed points

A machine that stops because no node waits is at a fixed point, whatever its analysis does: what is
recorded of every node that is reached from the root is what a further visit to it would find, and
nothing is recorded of other nodes.
-/

namespace Midend.Machine

variable {ν φ : Type}

/-- What flows into a node from outside: its seed or, at the root without a seed, a list without
facts. -/
def outside (machine : Machine ν φ) (id : Nat) : List (List φ) :=
  match machine.seeds[id]? with
  | some facts => [facts]
  | none => if machine.graph.root = some id then [[]] else []

/-- Into a node flows what comes from outside, followed by what flows out of its visited
predecessors in their order. -/
theorem incoming_eq (machine : Machine ν φ) (node : Node ν) :
    machine.incoming node =
      machine.outside node.id ++ node.prev.filterMap fun id => machine.outputs[id]? :=
  rfl

/-- What flows into a node is merged, if anything does. -/
theorem input_eq_merge {machine : Machine ν φ} {node : Node ν}
    (nonempty : machine.incoming node ≠ []) :
    machine.input node = machine.analysis.merge (machine.incoming node) := by
  rw [input]
  split
  next nothing => exact absurd nothing nonempty
  next => rfl

/-- Something flows into the root from outside. -/
theorem outside_root_ne_nil {machine : Machine ν φ} {root : Nat}
    (isRoot : machine.graph.root = some root) : machine.outside root ≠ [] := by
  rw [outside]
  split
  next => simp
  next => simp [isRoot]

variable [BEq φ]

/-- A machine whose records would not be changed by any visit. -/
structure FixedPoint (machine : Machine ν φ) : Prop where
  present : ∀ id, machine.graph.Reachable id → ∃ node, machine.graph.node? id = some node
  inputs_iff : ∀ id, (∃ input, machine.inputs[id]? = some input) ↔ machine.graph.Reachable id
  outputs_iff : ∀ id, (∃ output, machine.outputs[id]? = some output) ↔ machine.graph.Reachable id
  input_eq : ∀ id node input, machine.graph.node? id = some node →
    machine.inputs[id]? = some input →
    input = machine.analysis.merge
      (machine.outside id ++ node.prev.filterMap fun source => machine.outputs[source]?)
  distinct : ∀ (id : Nat) (output : List φ), machine.outputs[id]? = some output →
    Facts.Distinct output
  output_iff : ∀ id node input output, machine.graph.node? id = some node →
    machine.inputs[id]? = some input → machine.outputs[id]? = some output → ∀ fact,
    (Facts.has output fact = true ↔
      (Facts.has input fact = true ∨ Facts.has (machine.analysis.gen node) fact = true) ∧
        Facts.has (machine.analysis.kill node input (machine.analysis.gen node)) fact = false)

/-- A machine on its way that started as another: it has the other's analysis, graph and seeds, and
every node that was visited or waits was entered from outside or from a visited node. -/
structure Underway (initial : Machine ν φ) (waiting : List Nat) (machine : Machine ν φ) : Prop where
  analysis_eq : machine.analysis = initial.analysis
  graph_eq : machine.graph = initial.graph
  seeds_eq : machine.seeds = initial.seeds
  explored : Explored waiting machine
  distinct : ∀ (id : Nat) (output : List φ), machine.outputs[id]? = some output →
    Facts.Distinct output
  entered : ∀ id, machine.Visited id ∨ id ∈ waiting → machine.graph.root = some id ∨
    ∃ source, machine.Visited source ∧ id ∈ machine.graph.nextOf source

/-- What flows out of a node repeats no fact. -/
theorem distinct_transfer (analysis : Analysis ν φ) (node : Node ν) (input : List φ) :
    Facts.Distinct (transfer analysis node input) :=
  Facts.distinct_without _ _ (Facts.distinct_union _ _)

/-- A machine that has visited nothing is on its way from the root. -/
theorem Underway.start {machine : Machine ν φ} {root : Nat}
    (isRoot : machine.graph.root = some root) (inputs : machine.inputs = ∅)
    (outputs : machine.outputs = ∅) : Underway machine [root] machine where
  analysis_eq := rfl
  graph_eq := rfl
  seeds_eq := rfl
  explored := .start isRoot inputs outputs
  distinct := by simp [outputs]
  entered := by
    rintro id (⟨input, isInput⟩ | waits)
    · simp [inputs] at isInput
    · rw [List.mem_singleton.1 waits]
      exact .inl isRoot

section Visit

variable {initial machine : Machine ν φ}

/-- Something flows into a node that was visited or waits. -/
theorem Underway.incoming_ne_nil {waiting : List Nat} (underway : Underway initial waiting machine)
    (linked : initial.graph.Linked) {id : Nat} {node : Node ν}
    (found : machine.graph.node? id = some node) (ahead : machine.Visited id ∨ id ∈ waiting) :
    machine.incoming node ≠ [] := by
  rw [← underway.graph_eq] at linked
  obtain rfl := linked.id_eq id node found
  rw [incoming_eq]
  rcases underway.entered node.id ahead with isRoot | ⟨source, visited, follows⟩
  · exact List.append_ne_nil_of_left_ne_nil (outside_root_ne_nil isRoot) _
  · obtain ⟨output, isOutput⟩ := (underway.explored.outputs_iff source).1 visited
    have before : source ∈ node.prev := (linked.mem_prev_iff found source).2 follows
    exact List.append_ne_nil_of_right_ne_nil _
      (List.ne_nil_of_mem (List.mem_filterMap.2 ⟨source, before, isOutput⟩))

/-- A visit keeps a machine on its way. -/
theorem Underway.visit {worklist : Worklist} (underway : Underway initial worklist.waiting machine)
    (linked : initial.graph.Linked) {id : Nat} {others : List Nat} {node : Node ν}
    (waits : worklist.waiting = id :: others) (found : machine.graph.node? id = some node) :
    Underway initial (machine.worklistAfter { worklist with waiting := others } node).waiting
      (machine.afterVisit node) := by
  rw [← underway.graph_eq] at linked
  obtain rfl := linked.id_eq id node found
  constructor
  · exact underway.analysis_eq
  · exact underway.graph_eq
  · exact underway.seeds_eq
  · exact underway.explored.visit linked waits found
  · intro source output isOutput
    rcases outputs_afterVisit_cases machine node isOutput with old | ⟨-, rfl⟩
    · exact underway.distinct source output old
    · exact distinct_transfer _ _ _
  · intro other ahead
    have known (was : machine.Visited other ∨ other ∈ worklist.waiting) :
        machine.graph.root = some other ∨
          ∃ source, (machine.afterVisit node).Visited source ∧
            other ∈ machine.graph.nextOf source := by
      refine (underway.entered other was).imp_right ?_
      rintro ⟨source, visited, follows⟩
      exact ⟨source, (visited_afterVisit machine node source).2 (.inl visited), follows⟩
    rw [visited_afterVisit, mem_worklistAfter] at ahead
    rcases ahead with (visited | rfl) | (waiting | ⟨-, follows⟩)
    · exact known (.inl visited)
    · exact known (.inr (by simp [waits]))
    · exact known (.inr (by simp [waits, waiting]))
    · rw [← Graph.nextOf_eq found] at follows
      exact .inr ⟨node.id, (visited_afterVisit machine node node.id).2 (.inr rfl), follows⟩

/-- The nodes that wait are nodes of the graph. -/
theorem Underway.exists_node? {waiting : List Nat} (underway : Underway initial waiting machine)
    (linked : initial.graph.Linked) {root : Nat} (isRoot : initial.graph.root = some root)
    (inside : root < initial.graph.size) {id : Nat} (waits : id ∈ waiting) :
    ∃ node, machine.graph.node? id = some node := by
  have reachable := underway.explored.reachable id (.inr waits)
  rw [underway.graph_eq] at reachable ⊢
  exact initial.graph.exists_node? (reachable.lt linked isRoot inside)

end Visit

variable [EquivBEq φ]

/-- Out of a node flow the facts that flow in or that it makes, less those that it removes. -/
theorem has_transfer (analysis : Analysis ν φ) (node : Node ν) (input : List φ) (fact : φ) :
    Facts.has (transfer analysis node input) fact =
      ((Facts.has input fact || Facts.has (analysis.gen node) fact) &&
        !Facts.has (analysis.kill node input (analysis.gen node)) fact) := by
  rw [transfer, Facts.has_without, Facts.has_union]

/-- When no node waits, a machine is at a fixed point. -/
theorem Underway.fixedPoint {initial machine : Machine ν φ} (underway : Underway initial [] machine)
    (linked : initial.graph.Linked) : FixedPoint machine := by
  have explored := underway.explored
  constructor
  · exact fun id reachable => explored.present id ((explored.visited_iff id).2 reachable)
  · exact explored.visited_iff
  · exact fun id => (explored.outputs_iff id).symm.trans (explored.visited_iff id)
  · intro id node input found isInput
    have entered := underway.incoming_ne_nil linked found (.inl ⟨input, isInput⟩)
    rw [← underway.graph_eq] at linked
    rw [explored.current id node input found isInput (by simp), input_eq_merge entered,
      incoming_eq, linked.id_eq id node found]
  · exact underway.distinct
  · intro id node input output found isInput isOutput fact
    -- What was found at the last visit is not recorded when it has the same facts as the record.
    have agree : Facts.has output fact =
        Facts.has (transfer machine.analysis node input) fact := by
      rcases explored.settled id node input output found isInput isOutput with equal | same
      · rw [equal]
      · exact (Facts.same_iff (underway.distinct id output isOutput)
          (distinct_transfer _ _ _)).1 same fact
    rw [agree, has_transfer]
    simp

/-- The engine stops only at a fixed point: if a run from the root of a graph ends, then it ends
without a fault, and with what every node then has flowing in and out being what a visit would give
it, whatever the analysis is. -/
theorem runWithin_fixedPoint (analysis : Analysis ν φ) {graph : Graph ν} (built : graph.Built)
    {root : Nat} (isRoot : graph.root = some root) (inside : root < graph.size) (order : Order)
    (seeds : Std.TreeMap Nat (List φ)) (allowed : Nat)
    (returns : (runWithin allowed { analysis, graph, order, seeds }).2 ≠ .exhausted) :
    ∃ final, runWithin allowed { analysis, graph, order, seeds } = (final, .finished) ∧
      final.analysis = analysis ∧ final.graph = graph ∧ final.seeds = seeds ∧
      FixedPoint final := by
  have linked := built.linked
  set initial : Machine ν φ := { analysis, graph, order, seeds } with initial_def
  have starts : initial.graph.root = some root := isRoot
  have visit (left : Nat) (worklist : Worklist) (machine : Machine ν φ) (id : Nat)
      (others : List Nat) (node : Node ν) (underway : Underway initial worklist.waiting machine)
      (waits : worklist.waiting = id :: others) (found : machine.graph.node? id = some node) :=
    underway.visit linked waits found
  have ended := @runWithin_invariant ν φ _ (fun _ worklist => Underway initial worklist.waiting)
    visit initial linked root starts allowed (.start starts rfl rfl)
  rcases same : initial.runWithin allowed with ⟨final, outcome⟩
  rw [same] at ended returns
  obtain ⟨left, worklist, underway, ending⟩ := ended
  cases outcome with
  | failed fault =>
    obtain ⟨id, waits, missing⟩ := ending
    obtain ⟨node, found⟩ := underway.exists_node? linked starts inside waits
    cases found.symm.trans missing
  | exhausted => exact absurd rfl returns
  | finished =>
    rw [ending] at underway
    exact ⟨final, rfl, underway.analysis_eq, underway.graph_eq, underway.seeds_eq,
      underway.fixedPoint linked⟩

/-- Two nodes in a loop. -/
def twoNodeLoop : Graph Unit :=
  .ofLists [("head", ()), ("tail", ())] [(0, 1), (1, 0)] (some 0)

/-- An analysis whose facts neither only grow nor only shrink, with repetitions among them: nodes
make their own number twice over, and the second node removes the fact that comes first. -/
def firstRemoved : Analysis Unit Nat where
  gen node := [node.id, node.id]
  kill node input _ := if node.id = 1 then input.take 1 else []
  merge := List.flatten

/-- The run of an analysis whose facts neither only grow nor only shrink stops at a fixed point. -/
theorem runWithin_fixedPoint_firstRemoved :
    ∃ final : Machine Unit Nat,
      runWithin 4
        { analysis := firstRemoved
          graph := twoNodeLoop
          order := .dedup
          seeds := .ofList [(0, [7, 7])] } = (final, .finished) ∧ FixedPoint final := by
  have built : twoNodeLoop.Built := Graph.built_ofLists _ _ _ (by decide)
  obtain ⟨final, ran, -, -, -, rests⟩ := runWithin_fixedPoint firstRemoved built rfl (by decide)
    .dedup (.ofList [(0, [7, 7])]) 4 (by decide +kernel)
  exact ⟨final, ran, rests⟩

end Midend.Machine
