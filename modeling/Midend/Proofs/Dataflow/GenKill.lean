import Midend.Proofs.Dataflow.FixedPoint
import Midend.Proofs.Graph.Search
import Mathlib.Algebra.BigOperators.Ring.Finset

/-!
# Analyses that make and remove facts

In a gen-kill analysis a node makes facts of its own and removes some of those that flow in,
whatever else flows in. When facts merge by union it takes one predecessor for a fact to be present,
and when they merge by intersection it takes one for it to be absent: one of the two answers
prevails. What flows out of a node changes only towards the answer that prevails, so that the limit
on visits is enough.
-/

namespace Midend

/-- A node removes the facts that flow in and that it is told to remove, none of which it makes. It
is told the same of facts that are the same; otherwise it would matter which of them a list holds,
and this depends on the order of visits. -/
structure Analysis.IsGenKill {ν φ : Type} [BEq φ] (analysis : Analysis ν φ)
    (kills : Node ν → φ → Bool) : Prop where
  kill_eq : ∀ node input gen, analysis.kill node input gen = input.filter (kills node)
  gen_kept : ∀ node, ∀ fact ∈ analysis.gen node, kills node fact = false
  blind : ∀ node fact other, (fact == other) = true → kills node fact = kills node other

/-- A gen-kill analysis whose facts merge by union or by intersection. -/
structure Analysis.IsBitVector {ν φ : Type} [BEq φ] (analysis : Analysis ν φ)
    (kills : Node ν → φ → Bool) : Prop extends analysis.IsGenKill kills where
  merges : analysis.merge = Facts.unions ∨ analysis.merge = Facts.intersection

/-- One answer to whether a fact is present prevails. Merged lists give it when one of them does; a
node gives it when it causes it, or when it flows in and the node does not reverse it. Merging finds
no facts of its own. -/
structure Analysis.Prevails {ν φ : Type} [BEq φ] (analysis : Analysis ν φ) (answer : Bool)
    (causes reverses : Node ν → φ → Bool) : Prop where
  merge_iff : ∀ lists fact, lists ≠ [] → (Facts.has (analysis.merge lists) fact = answer ↔
    ∃ facts ∈ lists, Facts.has facts fact = answer)
  transfer_iff : ∀ node input fact, Facts.has (Machine.transfer analysis node input) fact = answer ↔
    causes node fact = true ∨ Facts.has input fact = answer ∧ reverses node fact = false
  merge_known : ∀ lists fact, Facts.has (analysis.merge lists) fact = true →
    ∃ facts ∈ lists, Facts.has facts fact = true

namespace Analysis.IsGenKill

variable {ν φ : Type} [BEq φ] [EquivBEq φ] {analysis : Analysis ν φ} {kills : Node ν → φ → Bool}

omit [EquivBEq φ] in
/-- What a node makes it does not remove. -/
theorem kills_of_has (genKill : analysis.IsGenKill kills) {node : Node ν} {fact : φ}
    (made : Facts.has (analysis.gen node) fact = true) : kills node fact = false := by
  obtain ⟨other, member, same⟩ := List.any_eq_true.1 made
  rw [← genKill.blind node other fact same, genKill.gen_kept node other member]

/-- Out of a node flow the facts that it makes, and those that flow in and are not removed. -/
theorem has_transfer (genKill : analysis.IsGenKill kills) (node : Node ν) (input : List φ)
    (fact : φ) :
    Facts.has (Machine.transfer analysis node input) fact =
      (Facts.has (analysis.gen node) fact || Facts.has input fact && !kills node fact) := by
  rw [Machine.has_transfer, genKill.kill_eq, Facts.has_filter input (genKill.blind node)]
  cases made : Facts.has (analysis.gen node) fact
  · cases Facts.has input fact <;> simp
  · simp [genKill.kills_of_has made]

/-- When facts merge by union, presence prevails. -/
theorem prevails_of_unions (genKill : analysis.IsGenKill kills)
    (merges : analysis.merge = Facts.unions) :
    analysis.Prevails true (fun node => Facts.has (analysis.gen node)) kills where
  merge_iff lists fact _ := by rw [merges, Facts.has_unions, List.any_eq_true]
  transfer_iff node input fact := by simp [genKill.has_transfer]
  merge_known lists fact present := by
    rwa [merges, Facts.has_unions, List.any_eq_true] at present

/-- When facts merge by intersection, absence prevails. -/
theorem prevails_of_intersection (genKill : analysis.IsGenKill kills)
    (merges : analysis.merge = Facts.intersection) :
    analysis.Prevails false kills fun node => Facts.has (analysis.gen node) where
  merge_iff lists fact nonempty := by
    rw [merges, Facts.has_intersection nonempty, List.all_eq_false]
    simp
  transfer_iff node input fact := by
    rw [genKill.has_transfer]
    cases made : Facts.has (analysis.gen node) fact
    · cases Facts.has input fact <;> simp
    · simp [genKill.kills_of_has made]
  merge_known lists fact present := by
    cases lists with
    | nil => simp [merges, Facts.intersection, Facts.has] at present
    | cons first others =>
      rw [merges, Facts.has_intersection (List.cons_ne_nil _ _), List.all_eq_true] at present
      exact ⟨first, List.mem_cons_self, present first List.mem_cons_self⟩

end Analysis.IsGenKill

/-- One of the answers prevails in a gen-kill analysis that merges by union or by intersection. -/
theorem Analysis.IsBitVector.exists_prevails {ν φ : Type} [BEq φ] [EquivBEq φ]
    {analysis : Analysis ν φ} {kills : Node ν → φ → Bool} (bitVector : analysis.IsBitVector kills) :
    ∃ answer causes reverses, analysis.Prevails answer causes reverses := by
  rcases bitVector.merges with unions | intersection
  · exact ⟨_, _, _, bitVector.prevails_of_unions unions⟩
  · exact ⟨_, _, _, bitVector.prevails_of_intersection intersection⟩

namespace Machine

variable {ν φ : Type}

section Potential

variable [BEq φ]

/-- How often what flows out of a node may still change towards the answer that prevails. -/
def room (answer : Bool) (machine : Machine ν φ) (id : Nat) : Nat :=
  match machine.outputs[id]? with
  | none => machine.facts.length + 1
  | some output => if answer then machine.facts.length - output.length else output.length

/-- The most visits that may still be made: the waiting nodes, and those behind every node that may
still change. -/
def potential (answer : Bool) (waiting : List Nat) (machine : Machine ν φ) : Nat :=
  waiting.length + ∑ id ∈ Finset.range machine.graph.size,
    (machine.graph.nextOf id).length * machine.room answer id

/-- The room of other nodes stays as it is. -/
theorem room_afterVisit_of_ne (answer : Bool) (machine : Machine ν φ) (node : Node ν) {id : Nat}
    (other : node.id ≠ id) :
    (machine.afterVisit node).room answer id = machine.room answer id := by
  rw [room, room, outputs_afterVisit_of_ne machine node other]
  rfl

/-- At the start, the limit on visits is what may still be made. -/
theorem potential_start (answer : Bool) (machine : Machine ν φ) (outputs : machine.outputs = ∅)
    (root : Nat) : potential answer [root] machine = machine.limit := by
  have edges : machine.graph.edgeCount =
      ∑ id ∈ Finset.range machine.graph.size, (machine.graph.nextOf id).length := by
    rw [Graph.edgeCount, List.flatMap_def, ← sum_range_length, List.length_map,
      Array.length_toList]
    refine Finset.sum_congr rfl fun id _ => ?_
    rw [List.getElem?_map, Array.getElem?_toList, Graph.nextOf, Graph.node?]
  have full (id : Nat) : machine.room answer id = machine.facts.length + 1 := by
    rw [room, outputs]
    rfl
  simp only [potential, limit, edges, full, List.length_singleton, Finset.sum_mul]

end Potential

variable [BEq φ] [EquivBEq φ]

/-- The facts of a machine are those that nodes make and those that are seeded. -/
theorem has_facts_iff (machine : Machine ν φ) (fact : φ) :
    Facts.has machine.facts fact = true ↔
      (∃ (id : Nat) (node : Node ν), machine.graph.node? id = some node ∧
        Facts.has (machine.analysis.gen node) fact = true) ∨
      ∃ (id : Nat) (seed : List φ), machine.seeds[id]? = some seed ∧
        Facts.has seed fact = true := by
  rw [facts, Facts.has_unions, List.any_eq_true]
  simp only [List.mem_append, or_and_right, exists_or]
  refine or_congr ?_ ?_
  · constructor
    · rintro ⟨_, listed, made⟩
      obtain ⟨node, member, rfl⟩ := List.mem_map.1 listed
      obtain ⟨id, found⟩ := List.getElem?_of_mem member
      exact ⟨id, node, by rwa [Graph.node?, ← Array.getElem?_toList], made⟩
    · rintro ⟨id, node, found, made⟩
      rw [Graph.node?, ← Array.getElem?_toList] at found
      exact ⟨_, List.mem_map_of_mem (List.mem_of_getElem? found), made⟩
  · constructor
    · rintro ⟨_, listed, present⟩
      obtain ⟨⟨id, seed⟩, among, rfl⟩ := List.mem_map.1 listed
      exact ⟨id, seed, Std.TreeMap.mem_toList_iff_getElem?_eq_some.1 among, present⟩
    · rintro ⟨id, seed, isSeed, present⟩
      exact ⟨seed, List.mem_map.2 ⟨(id, seed),
        Std.TreeMap.mem_toList_iff_getElem?_eq_some.2 isSeed, rfl⟩, present⟩

/-- What flows in from outside are facts of the machine. -/
theorem has_facts_of_outside {machine : Machine ν φ} {id : Nat} {seed : List φ}
    (enters : seed ∈ machine.outside id) {fact : φ} (present : Facts.has seed fact = true) :
    Facts.has machine.facts fact = true := by
  rw [outside] at enters
  split at enters
  next facts isSeed =>
    obtain rfl := List.mem_singleton.1 enters
    exact (machine.has_facts_iff fact).2 (.inr ⟨id, seed, isSeed, present⟩)
  next =>
    split at enters
    next =>
      rw [List.mem_singleton.1 enters] at present
      cases present
    next => cases enters

/-- A machine in which a visit to any node could only turn what flows out of it towards an answer,
and which has found no facts of its own. -/
structure Settling (answer : Bool) (machine : Machine ν φ) : Prop where
  turns : ∀ id node (output : List φ), machine.graph.node? id = some node →
    machine.outputs[id]? = some output → ∀ fact, Facts.has output fact = answer →
    Facts.has (machine.outcome node) fact = answer
  known : ∀ (id : Nat) (output : List φ), machine.outputs[id]? = some output → ∀ fact,
    Facts.has output fact = true → Facts.has machine.facts fact = true

omit [EquivBEq φ] in
/-- A machine that has visited nothing is settling. -/
theorem Settling.start {answer : Bool} {machine : Machine ν φ} (outputs : machine.outputs = ∅) :
    Settling answer machine := by
  constructor <;> simp [outputs]

section Settling

variable {answer : Bool} {causes reverses : Node ν → φ → Bool} {machine : Machine ν φ}

omit [EquivBEq φ] in
/-- The answer flows into a node when one of the lists that flow in gives it. -/
theorem has_input_iff (prevails : machine.analysis.Prevails answer causes reverses)
    {node : Node ν} (entered : machine.incoming node ≠ []) (fact : φ) :
    Facts.has (machine.input node) fact = answer ↔
      ∃ facts ∈ machine.incoming node, Facts.has facts fact = answer := by
  rw [input_eq_merge entered, prevails.merge_iff _ _ entered]

/-- What a visit lets flow out are facts of the machine. -/
theorem Settling.outcome_known (settling : Settling answer machine)
    (prevails : machine.analysis.Prevails answer causes reverses) {id : Nat} {node : Node ν}
    (found : machine.graph.node? id = some node) (entered : machine.incoming node ≠ []) {fact : φ}
    (present : Facts.has (machine.outcome node) fact = true) :
    Facts.has machine.facts fact = true := by
  rw [outcome, has_transfer, Bool.and_eq_true, Bool.or_eq_true] at present
  rcases present.1 with flows | made
  · rw [input_eq_merge entered] at flows
    obtain ⟨facts, member, within⟩ := prevails.merge_known _ _ flows
    rw [incoming_eq, List.mem_append] at member
    rcases member with enters | from_
    · exact has_facts_of_outside enters within
    · obtain ⟨source, -, isOutput⟩ := List.mem_filterMap.1 from_
      exact settling.known source facts isOutput fact within
  · exact (machine.has_facts_iff fact).2 (.inl ⟨id, node, found, made⟩)

omit [EquivBEq φ] in
/-- An answer that flows out of a node before a visit still flows out of it afterwards. -/
theorem Settling.outputs_afterVisit (settling : Settling answer machine) {id : Nat}
    {node : Node ν} (found : machine.graph.node? id = some node) (same : node.id = id)
    {source : Nat} {output : List φ} (before : machine.outputs[source]? = some output) :
    ∃ after, (machine.afterVisit node).outputs[source]? = some after ∧
      ∀ fact, Facts.has output fact = answer → Facts.has after fact = answer := by
  by_cases visited : node.id = source
  · simp only [afterVisit]
    split
    · refine ⟨machine.outcome node, ?_, ?_⟩
      · rw [visited, Std.TreeMap.getElem?_insert_self]
      · exact settling.turns source node output (by rw [← visited, same, found]) before
    · exact ⟨output, before, fun _ given => given⟩
  · exact ⟨output, by rw [outputs_afterVisit_of_ne machine node visited, before],
      fun _ given => given⟩

omit [EquivBEq φ] in
/-- A visit leaves an answer where it would flow out before. -/
theorem Settling.outcome_afterVisit (settling : Settling answer machine)
    (prevails : machine.analysis.Prevails answer causes reverses) {id : Nat} {node : Node ν}
    (found : machine.graph.node? id = some node) (same : node.id = id) {other : Node ν}
    (entered : machine.incoming other ≠ []) {fact : φ}
    (given : Facts.has (machine.outcome other) fact = answer) :
    Facts.has ((machine.afterVisit node).outcome other) fact = answer := by
  have stays (facts : List φ) (member : facts ∈ machine.incoming other) :
      ∃ after ∈ (machine.afterVisit node).incoming other,
        ∀ fact, Facts.has facts fact = answer → Facts.has after fact = answer := by
    rw [incoming_eq, List.mem_append] at member
    rcases member with enters | from_
    · exact ⟨facts, List.mem_append_left _ enters, fun _ given => given⟩
    · obtain ⟨source, before, isOutput⟩ := List.mem_filterMap.1 from_
      obtain ⟨after, isAfter, more⟩ := settling.outputs_afterVisit found same isOutput
      exact ⟨after, List.mem_append_right _ (List.mem_filterMap.2 ⟨source, before, isAfter⟩), more⟩
  have enteredAfter : (machine.afterVisit node).incoming other ≠ [] := by
    obtain ⟨facts, member⟩ := List.exists_mem_of_ne_nil _ entered
    obtain ⟨after, isAfter, -⟩ := stays facts member
    exact List.ne_nil_of_mem isAfter
  have prevailsAfter : (machine.afterVisit node).analysis.Prevails answer causes reverses :=
    prevails
  refine (prevailsAfter.transfer_iff other _ fact).2 ?_
  refine ((prevails.transfer_iff other _ fact).1 given).imp_right fun ⟨flows, kept⟩ => ⟨?_, kept⟩
  obtain ⟨facts, member, within⟩ := (has_input_iff prevails entered fact).1 flows
  obtain ⟨after, isAfter, more⟩ := stays facts member
  exact (has_input_iff prevailsAfter enteredAfter fact).2 ⟨after, isAfter, more fact within⟩

/-- A visit keeps a machine settling. -/
theorem Settling.visit (settling : Settling answer machine) {initial : Machine ν φ}
    {waiting : List Nat} (underway : Underway initial waiting machine)
    (linked : initial.graph.Linked) (prevails : machine.analysis.Prevails answer causes reverses)
    {node : Node ν} (found : machine.graph.node? node.id = some node) (waits : node.id ∈ waiting) :
    Settling answer (machine.afterVisit node) := by
  have enteredNode := underway.incoming_ne_nil linked found (.inr waits)
  constructor
  · intro source other output foundOther isOutput fact given
    rcases outputs_afterVisit_cases machine node isOutput with old | ⟨rfl, rfl⟩
    · have visited := (underway.explored.outputs_iff source).2 ⟨output, old⟩
      have entered := underway.incoming_ne_nil linked foundOther (.inl visited)
      exact settling.outcome_afterVisit prevails found rfl entered
        (settling.turns source other output foundOther old fact given)
    · obtain rfl : node = other := Option.some.inj (found.symm.trans foundOther)
      exact settling.outcome_afterVisit prevails found rfl enteredNode given
  · intro source output isOutput fact present
    rcases outputs_afterVisit_cases machine node isOutput with old | ⟨-, rfl⟩
    · exact settling.known source output old fact present
    · exact settling.outcome_known prevails found enteredNode present

/-- A visit that changes what flows out of a node takes from the node's room. -/
theorem Settling.room_afterVisit (settling : Settling answer machine) {initial : Machine ν φ}
    {waiting : List Nat} (underway : Underway initial waiting machine)
    (linked : initial.graph.Linked) (prevails : machine.analysis.Prevails answer causes reverses)
    {node : Node ν} (found : machine.graph.node? node.id = some node) (waits : node.id ∈ waiting)
    (changed : machine.changes node = true) :
    (machine.afterVisit node).room answer node.id + 1 ≤ machine.room answer node.id := by
  have now : (machine.afterVisit node).outputs[node.id]? = some (machine.outcome node) := by
    simp only [afterVisit, changed, if_true]
    exact Std.TreeMap.getElem?_insert_self
  have distinct : Facts.Distinct (machine.outcome node) := distinct_transfer _ _ _
  have bound : (machine.outcome node).length ≤ machine.facts.length :=
    distinct.length_le fun fact => settling.outcome_known prevails found
      (underway.incoming_ne_nil linked found (.inr waits))
  have after : (machine.afterVisit node).room answer node.id =
      if answer then machine.facts.length - (machine.outcome node).length
      else (machine.outcome node).length := by
    rw [room, now]
    rfl
  rw [after, room]
  cases before : machine.outputs[node.id]? with
  | none =>
    dsimp only
    split <;> omega
  | some previous =>
    have differs : Facts.same previous (machine.outcome node) = false := by
      rw [changes, before] at changed
      simpa using changed
    have turned := (underway.distinct node.id previous before).length_turned distinct
      (settling.turns node.id node previous found before) differs
    dsimp only
    cases answer with
    | true =>
      simp only [if_true] at turned ⊢
      omega
    | false =>
      simp only [Bool.false_eq_true, if_false] at turned ⊢
      omega

/-- Every visit takes from the potential. -/
theorem Settling.potential_visit (settling : Settling answer machine) {initial : Machine ν φ}
    {worklist : Worklist} (underway : Underway initial worklist.waiting machine)
    (linked : initial.graph.Linked) (prevails : machine.analysis.Prevails answer causes reverses)
    {others : List Nat} {node : Node ν} (waits : worklist.waiting = node.id :: others)
    (found : machine.graph.node? node.id = some node) :
    potential answer (machine.worklistAfter { worklist with waiting := others } node).waiting
        (machine.afterVisit node) + 1 ≤ potential answer worklist.waiting machine := by
  have isWaiting : node.id ∈ worklist.waiting := by simp [waits]
  unfold potential
  have graphs : (machine.afterVisit node).graph = machine.graph := rfl
  rw [graphs, waits, List.length_cons]
  by_cases changed : machine.changes node = true
  -- The nodes behind wait again, and the room of the visited node pays for each of them.
  · have inside : node.id ∈ Finset.range machine.graph.size := by
      rw [Finset.mem_range]
      exact (Array.getElem?_eq_some_iff.1 found).1
    have rest : ∑ id ∈ (Finset.range machine.graph.size).erase node.id,
        (machine.graph.nextOf id).length * (machine.afterVisit node).room answer id =
          ∑ id ∈ (Finset.range machine.graph.size).erase node.id,
            (machine.graph.nextOf id).length * machine.room answer id := by
      refine Finset.sum_congr rfl fun id among => ?_
      rw [room_afterVisit_of_ne answer machine node (Ne.symm (Finset.mem_erase.1 among).1)]
    have behind : machine.graph.nextOf node.id = node.next := Graph.nextOf_eq found
    have less := settling.room_afterVisit underway linked prevails found isWaiting changed
    have here : node.next.length * (machine.afterVisit node).room answer node.id +
        node.next.length ≤ node.next.length * machine.room answer node.id := by
      rw [← Nat.mul_succ]
      exact Nat.mul_le_mul_left _ less
    have queued : (machine.worklistAfter { worklist with waiting := others } node).waiting.length ≤
        others.length + node.next.length := by
      rw [worklistAfter, if_pos changed]
      exact Worklist.length_pushAll_le _ _
    rw [← Finset.add_sum_erase _ _ inside, ← Finset.add_sum_erase _ _ inside, rest, behind]
    omega
  · have rest : ∀ id, (machine.afterVisit node).room answer id = machine.room answer id := by
      intro id
      simp only [room, afterVisit, if_neg changed]
      rfl
    simp only [worklistAfter, if_neg changed, rest]
    omega

end Settling

end Machine

end Midend
