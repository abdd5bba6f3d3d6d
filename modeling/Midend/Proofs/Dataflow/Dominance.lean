import Midend.Dataflow.Dominance
import Midend.Proofs.Dataflow.Paths
import Midend.Proofs.Entries
import Midend.Proofs.Graph.Blocks

/-!
# Dominance

A block dominates another when every path from the first block to the other passes through it. The
analysis finds exactly the dominators of every block that control reaches. Its answer that prevails
is that a block does not dominate: this spreads along the paths on which the block is missing.
-/

namespace Midend

/-- Control may go from one block to another, which it names as a successor. -/
def Follows (blocks : List Block) (source target : Nat) : Prop :=
  ∃ block other : Block, blocks[source]? = some block ∧ blocks[target]? = some other ∧
    other.label ∈ block.next

/-- A path from the first block to another, as the list of all blocks that it passes, its ends
included. -/
inductive PathTo (blocks : List Block) : List Nat → Nat → Prop
  | start (inside : 0 < blocks.length) : PathTo blocks [0] 0
  | step {path : List Nat} {source target : Nat} (before : PathTo blocks path source)
    (follows : Follows blocks source target) : PathTo blocks (path ++ [target]) target

/-- A block through which every path from the first block to another passes. -/
def Dominates (blocks : List Block) (dominator id : Nat) : Prop :=
  ∀ path, PathTo blocks path id → dominator ∈ path

/-- A path ends at its last block. -/
theorem PathTo.eq_concat {blocks : List Block} {path : List Nat} {id : Nat}
    (leads : PathTo blocks path id) : path = path.dropLast ++ [id] := by
  cases leads <;> simp

/-- Paths whose blocks before the last one pass a test are those of the relation between blocks that
pass it and the blocks that follow. -/
theorem exists_pathTo_iff {blocks : List Block} (inside : 0 < blocks.length) (passes : Nat → Prop)
    (id : Nat) :
    (∃ path, PathTo blocks path id ∧ ∀ place ∈ path.dropLast, passes place) ↔
      Relation.ReflTransGen (fun source target => passes source ∧ Follows blocks source target)
        0 id := by
  constructor
  · rintro ⟨path, leads, through⟩
    induction leads with
    | start => exact .refl
    | @step path source target before follows ih =>
      rw [List.dropLast_concat] at through
      refine .tail (ih fun place member => through place (List.dropLast_subset path member))
        ⟨through source ?_, follows⟩
      rw [before.eq_concat]
      simp
  · intro reaches
    induction reaches with
    | refl => exact ⟨[0], .start inside, by simp⟩
    | @tail source target _ step ih =>
      obtain ⟨path, leads, through⟩ := ih
      refine ⟨path ++ [target], leads.step step.2, fun place member => ?_⟩
      rw [List.dropLast_concat, leads.eq_concat, List.mem_append, List.mem_singleton] at member
      rcases member with early | rfl
      · exact through place early
      · exact step.1

/-- A block other than the last dominates it unless a path avoids the block on the way. -/
theorem dominates_iff {blocks : List Block} (inside : 0 < blocks.length) {dominator id : Nat}
    (different : dominator ≠ id) :
    Dominates blocks dominator id ↔
      ¬Relation.ReflTransGen
        (fun source target => source ≠ dominator ∧ Follows blocks source target) 0 id := by
  rw [← exists_pathTo_iff inside fun place => place ≠ dominator]
  constructor
  · rintro dominates ⟨path, leads, avoids⟩
    have member := dominates path leads
    rw [leads.eq_concat, List.mem_append, List.mem_singleton] at member
    rcases member with early | last
    · exact avoids dominator early rfl
    · exact different last
  · intro unavoidable path leads
    by_contra missing
    refine unavoidable ⟨path, leads, fun place member same => missing ?_⟩
    exact same ▸ List.dropLast_subset path member

/-- Every block dominates itself. -/
theorem dominates_self (blocks : List Block) (id : Nat) : Dominates blocks id id := by
  intro path leads
  rw [leads.eq_concat]
  simp

/-- A path can be cut off where it comes to its last block for the first time. -/
theorem reaches_before {relation : Nat → Nat → Prop} {start id : Nat}
    (reaches : Relation.ReflTransGen relation start id) :
    Relation.ReflTransGen (fun source target => source ≠ id ∧ relation source target) start id := by
  induction reaches using Relation.ReflTransGen.head_induction_on with
  | refl => exact .refl
  | @head source next step _ ih =>
    by_cases same : source = id
    · rw [same]
    · exact .head ⟨same, step⟩ ih

/-- Dominators are made by blocks and never removed. -/
theorem dominanceAnalysis_isBitVector : dominanceAnalysis.IsBitVector fun _ _ => false where
  kill_eq node input gen := by simp [dominanceAnalysis]
  gen_kept _ _ _ := rfl
  blind _ _ _ _ := rfl
  merges := .inr rfl

/-- That a block does not dominate prevails. -/
theorem dominanceAnalysis_prevails :
    dominanceAnalysis.Prevails false (fun _ _ => false)
      fun node => Facts.has (dominanceAnalysis.gen node) :=
  dominanceAnalysis_isBitVector.prevails_of_intersection rfl

/-- A graph of blocks, in which control goes as their names say. -/
structure BlockGraph (blocks : List Block) (graph : Graph Block) : Prop where
  linked : graph.Linked
  values : ∀ id, (graph.node? id).map Node.value = blocks[id]?
  edges : ∀ source target, target ∈ graph.nextOf source ↔ Follows blocks source target
  isRoot : graph.root = some 0
  size_eq : graph.size = blocks.length
  inside : 0 < blocks.length

/-- Among distinct names, the successors of a block are the blocks that it names. -/
theorem mem_successors_iff_follows {blocks : List Block} {successors : List (List Nat)}
    (table : successorTable blocks = .ok successors) (nodup : (blocks.map Block.label).Nodup)
    (source target : Nat) :
    target ∈ (successors[source]?).getD [] ↔ Follows blocks source target := by
  cases found : blocks[source]? with
  | none =>
    have beyond : successors[source]? = none := by
      rw [List.getElem?_eq_none_iff, length_successors table]
      exact List.getElem?_eq_none_iff.1 found
    simp [Follows, found, beyond]
  | some block =>
    rw [mem_successors_iff table found]
    simp only [blockNamed?_eq_some_iff nodup]
    constructor
    · rintro ⟨label, named, other, stands, rfl⟩
      exact ⟨block, other, found, stands, named⟩
    · rintro ⟨here, other, isHere, stands, named⟩
      obtain rfl := Option.some.inj (found.symm.trans isHere)
      exact ⟨other.label, named, other, stands, rfl⟩

/-- Blocks of distinct names whose successors are found have a block graph. -/
theorem exists_blockGraph_follows {blocks : List Block} (nonempty : blocks ≠ [])
    (nodup : (blocks.map Block.label).Nodup)
    (resolved : ∃ successors, successorTable blocks = .ok successors) :
    ∃ graph, blockGraph blocks = .ok graph ∧ BlockGraph blocks graph := by
  obtain ⟨successors, table⟩ := resolved
  obtain ⟨graph, made, built, values, size, edges, root⟩ := exists_blockGraph table
  refine ⟨graph, made, built.linked, values, fun source target => ?_, ?_, size,
    List.length_pos_iff.2 nonempty⟩
  · rw [edges, mem_successors_iff_follows table nodup]
  · rw [root, if_neg (by simpa using nonempty)]

namespace BlockGraph

variable {blocks : List Block} {graph : Graph Block}

/-- There is a node for every block. -/
theorem exists_node? (shape : BlockGraph blocks graph) {id : Nat} {block : Block}
    (stands : blocks[id]? = some block) : ∃ node, graph.node? id = some node := by
  refine graph.exists_node? ?_
  rw [shape.size_eq]
  exact (List.getElem?_eq_some_iff.1 stands).1

/-- Control reaches the blocks to which paths lead. -/
theorem reachable_iff (shape : BlockGraph blocks graph) (id : Nat) :
    graph.Reachable id ↔ ∃ path, PathTo blocks path id := by
  have paths := exists_pathTo_iff shape.inside (fun _ => True) id
  simp only [implies_true, and_true, true_and] at paths
  rw [paths]
  simp only [Graph.Reachable, shape.isRoot, Option.some.injEq, exists_eq_left', shape.edges]

/-- The blocks found under distinct names are told apart by what they make. -/
theorem has_gen_iff (shape : BlockGraph blocks graph) (nodup : (blocks.map Block.label).Nodup)
    {id other : Nat} {node : Node Block} {block : Block} (found : graph.node? id = some node)
    (stands : blocks[other]? = some block) :
    Facts.has (dominanceAnalysis.gen node) block.label = true ↔ id = other := by
  have value : blocks[id]? = some node.value := by rw [← shape.values, found, Option.map_some]
  simp only [dominanceAnalysis, Facts.has_iff, List.mem_singleton]
  constructor
  · exact fun same => (eq_of_label_eq nodup stands value same).symm
  · rintro rfl
    rw [value, Option.some.injEq] at stands
    rw [stands]

/-- That a block does not dominate spreads to the blocks to which control comes without it. -/
theorem spreads_iff (shape : BlockGraph blocks graph) (nodup : (blocks.map Block.label).Nodup)
    (order : Order) {other : Nat} {block : Block} (stands : blocks[other]? = some block)
    (id : Nat) :
    Machine.Spreads { analysis := dominanceAnalysis, graph, order } false (fun _ _ => false)
        (fun node => Facts.has (dominanceAnalysis.gen node)) block.label id ↔
      Relation.ReflTransGen (fun source target => source ≠ other ∧ Follows blocks source target)
        0 id := by
  have relation : Machine.Carries { analysis := dominanceAnalysis, graph, order }
      (fun node => Facts.has (dominanceAnalysis.gen node)) block.label =
        fun source target => source ≠ other ∧ Follows blocks source target := by
    funext source target
    refine propext (and_congr ?_ (shape.edges source target))
    constructor
    · rintro kept rfl
      obtain ⟨node, found⟩ := shape.exists_node? stands
      have made := (shape.has_gen_iff nodup found stands).2 rfl
      cases (kept node found).symm.trans made
    · intro different node found
      rw [← Bool.not_eq_true, shape.has_gen_iff nodup found stands]
      exact different
  constructor
  · intro spreads
    cases spreads with
    | @entered start facts reachable enters given path =>
      rw [relation] at path
      by_cases isRoot : graph.root = some start
      · rw [shape.isRoot, Option.some.injEq] at isRoot
        rwa [isRoot]
      · simp [Machine.outside, isRoot] at enters
    | caused reachable found caused follows path => cases caused
  · intro reaches
    have enters : [] ∈ Machine.outside { analysis := dominanceAnalysis, graph, order } 0 := by
      simp [Machine.outside, shape.isRoot]
    exact .entered (Graph.reachable_root shape.isRoot) enters rfl (by rwa [relation])

end BlockGraph

/-- What the dominators of blocks are: for every block that control reaches, the names of those that
dominate it in the order of the blocks, and for strict dominance the same names without its own. -/
structure ExactDominators (blocks : List Block) (nonStrict strict : Dominators) : Prop where
  keys : ∀ label, label ∈ nonStrict ↔ ∃ (id : Nat) (block : Block), blocks[id]? = some block ∧
    block.label = label ∧ ∃ path, PathTo blocks path id
  keys_strict : ∀ label, label ∈ strict ↔ label ∈ nonStrict
  entries : ∀ (id : Nat) (block : Block), blocks[id]? = some block →
    (∃ path, PathTo blocks path id) →
    ∃ labels, nonStrict[block.label]? = some labels ∧
      labels.Sublist (blocks.map Block.label) ∧ labels.Nodup ∧
      (∀ (other : Nat) (dominator : Block), blocks[other]? = some dominator →
        (dominator.label ∈ labels ↔ Dominates blocks other id)) ∧
      strict[block.label]? = some (labels.filter (· ≠ block.label))

/-- The entries for the blocks that a machine has facts about. -/
def entriesFor (blocks : List Block) (kind : Dominance) (final : Machine Block String) :
    Dominators :=
  insertAll (fun item : Block × Nat => item.1.label) (fun item => final.dominatorsOf? kind item.2)
    (fun facts => (blocks.map Block.label).filter facts.contains) blocks.zipIdx ∅

section Entries

variable {blocks : List Block} {kind : Dominance} {final : Machine Block String}

/-- There are entries for the blocks that the machine has facts about. -/
theorem mem_entriesFor (label : String) :
    label ∈ entriesFor blocks kind final ↔ ∃ (id : Nat) (block : Block),
      blocks[id]? = some block ∧ block.label = label ∧
        ∃ facts, final.dominatorsOf? kind id = some facts := by
  rw [entriesFor, mem_insertAll]
  simp only [Std.TreeMap.not_mem_emptyc, false_or]
  constructor
  · rintro ⟨⟨block, id⟩, listed, known, same⟩
    exact ⟨id, block, List.mem_zipIdx_iff_getElem?.1 listed, same, known⟩
  · rintro ⟨id, block, stands, same, known⟩
    exact ⟨(block, id), List.mem_zipIdx_iff_getElem?.2 stands, known, same⟩

/-- The entry for a block lists the blocks, in order, that the machine's facts name. -/
theorem getElem?_entriesFor (nodup : (blocks.map Block.label).Nodup) {id : Nat} {block : Block}
    (stands : blocks[id]? = some block) {facts : List String}
    (known : final.dominatorsOf? kind id = some facts) :
    (entriesFor blocks kind final)[block.label]? =
      some ((blocks.map Block.label).filter facts.contains) := by
  have listed : blocks.zipIdx[id]? = some (block, id) := by simp [stands]
  refine getElem?_insertAll (fun item : Block × Nat => item.1.label)
    (fun item => final.dominatorsOf? kind item.2) _ blocks.zipIdx ∅ listed known ?_
  rintro later ⟨other, number⟩ behind found - - same
  obtain ⟨standsLater, rfl⟩ : blocks[later]? = some other ∧ later = number := by
    simpa using found
  have equal := eq_of_label_eq nodup stands standsLater same.symm
  omega

/-- The dominators of blocks are the entries of a machine that has settled on their graph. -/
theorem dominators_eq {graph : Graph Block} (made : blockGraph blocks = .ok graph)
    (nonempty : blocks ≠ []) {options : Options}
    (settled : Machine.settle { analysis := dominanceAnalysis, graph, order := options.order } =
      .ok final) :
    dominators blocks kind options = .ok (entriesFor blocks kind final) := by
  have filled : blocks.isEmpty = false := by simpa using nonempty
  rw [dominators, dominanceMachine, made, filled]
  simp only [bind, Except.bind, pure, Except.pure, settled]
  rw [if_neg (by simp)]
  congr 2
  funext byLabel item
  dsimp only
  cases final.dominatorsOf? kind item.2 <;> rfl

/-- The entries are exact when the machine has facts about the blocks that control reaches, into
each flow the blocks that no path avoids before it, and out of it flows its own name besides. -/
theorem exact_entriesFor (nodup : (blocks.map Block.label).Nodup) (inside : 0 < blocks.length)
    (recorded : ∀ kind id, (∃ facts, final.dominatorsOf? kind id = some facts) ↔
      ∃ path, PathTo blocks path id)
    (before : ∀ (id : Nat) (input : List String), final.inputs[id]? = some input →
      ∀ (other : Nat) (dominator : Block), blocks[other]? = some dominator →
      (dominator.label ∈ input ↔ ¬Relation.ReflTransGen
        (fun source target => source ≠ other ∧ Follows blocks source target) 0 id))
    (after : ∀ (id : Nat) (block : Block) (input output : List String),
      blocks[id]? = some block → final.inputs[id]? = some input →
      final.outputs[id]? = some output → ∀ label,
      (label ∈ output ↔ label ∈ input ∨ label = block.label)) :
    ExactDominators blocks (entriesFor blocks .nonStrict final)
      (entriesFor blocks .strict final) := by
  constructor
  · simp only [mem_entriesFor, recorded, implies_true]
  · simp only [mem_entriesFor, recorded, implies_true]
  intro id block stands reached
  obtain ⟨input, isInput⟩ := (recorded .strict id).2 reached
  obtain ⟨output, isOutput⟩ := (recorded .nonStrict id).2 reached
  have flows := after id block input output stands isInput isOutput
  -- A path to the block can be cut off before the block stands on it.
  have own : block.label ∉ input := by
    rw [before id input isInput id block stands, not_not]
    have reaches := (exists_pathTo_iff inside (fun _ => True) id).1 (by simpa using reached)
    exact Relation.ReflTransGen.mono (fun _ _ step => ⟨step.1, step.2.2⟩) _ _
      (reaches_before reaches)
  refine ⟨_, getElem?_entriesFor nodup stands isOutput, List.filter_sublist, nodup.filter _,
    fun other dominator standsOther => ?_, ?_⟩
  · have listed : dominator.label ∈ blocks.map Block.label :=
      List.mem_map_of_mem (List.mem_of_getElem? standsOther)
    rw [List.mem_filter, List.contains_iff_mem, and_iff_right listed, flows]
    by_cases same : other = id
    · subst same
      rw [stands, Option.some.injEq] at standsOther
      simp [standsOther, dominates_self]
    · have different : dominator.label ≠ block.label := fun equal =>
        same (eq_of_label_eq nodup standsOther stands equal)
      rw [or_iff_left different, before id input isInput other dominator standsOther,
        dominates_iff inside same]
  · rw [getElem?_entriesFor nodup stands isInput, Option.some.injEq, List.filter_filter]
    refine List.filter_congr fun label _ => ?_
    rw [Bool.eq_iff_iff, Bool.and_eq_true, decide_eq_true_eq, List.contains_iff_mem,
      List.contains_iff_mem, flows]
    constructor
    · exact fun member => ⟨fun same => own (same ▸ member), .inl member⟩
    · rintro ⟨different, member | same⟩
      · exact member
      · exact absurd same different

end Entries

/-- The dominators of blocks of distinct names whose successors are found are exact. -/
theorem dominators_exact (blocks : List Block) (nodup : (blocks.map Block.label).Nodup)
    (resolved : ∃ successors, successorTable blocks = .ok successors) (options : Options) :
    ∃ nonStrict strict, dominators blocks .nonStrict options = .ok nonStrict ∧
      dominators blocks .strict options = .ok strict ∧
      ExactDominators blocks nonStrict strict := by
  by_cases empty : blocks = []
  · subst empty
    refine ⟨∅, ∅, rfl, rfl, ?_, ?_, ?_⟩ <;> simp
  obtain ⟨graph, made, shape⟩ := exists_blockGraph_follows empty nodup resolved
  have inside := shape.inside
  rw [← shape.size_eq] at inside
  obtain ⟨final, ran, -, underway, exact⟩ := @Machine.run_exact _ _ _ _ _ _ _
    { analysis := dominanceAnalysis, graph, order := options.order } shape.linked
    dominanceAnalysis_prevails 0 shape.isRoot inside rfl rfl
  have settled : Machine.settle { analysis := dominanceAnalysis, graph, order := options.order } =
      .ok final := by rw [Machine.settle, ran]
  refine ⟨_, _, dominators_eq made empty settled, dominators_eq made empty settled, ?_⟩
  have rests := underway.fixedPoint shape.linked
  have graphs : final.graph = graph := underway.graph_eq
  have analyses : final.analysis = dominanceAnalysis := underway.analysis_eq
  refine exact_entriesFor nodup shape.inside (fun kind id => ?_) ?_ ?_
  · rw [← shape.reachable_iff, ← graphs]
    cases kind
    · exact rests.inputs_iff id
    · exact rests.outputs_iff id
  · intro id input isInput other dominator stands
    rw [← shape.spreads_iff nodup options.order stands, ← exact id input isInput,
      Bool.not_eq_false, Facts.has_iff]
  · intro id block input output stands isInput isOutput label
    obtain ⟨node, found⟩ := shape.exists_node? stands
    have value : blocks[id]? = some node.value := by rw [← shape.values, found, Option.map_some]
    rw [stands, Option.some.injEq] at value
    have flows := rests.output_iff id node input output (by rw [graphs, found]) isInput isOutput
      label
    have nothing : Facts.has ([] : List String) label = false := rfl
    rw [analyses] at flows
    simpa [dominanceAnalysis, Facts.has_iff, nothing, ← value] using flows

/-- Blocks with a loop that is entered at two places and goes back to the first block, and a block
that control never reaches. -/
def twoEntryLoop : List Block := [
  { label := "start", next := ["left", "right"] },
  { label := "left", next := ["left", "right"] },
  { label := "right", next := ["left", "start", "stop"] },
  { label := "stop" },
  { label := "island", next := ["stop"] }]

/-- The dominators of a loop with two entries are exact. -/
theorem dominators_exact_twoEntryLoop :
    ∃ nonStrict strict, dominators twoEntryLoop .nonStrict { order := .dedup } = .ok nonStrict ∧
      dominators twoEntryLoop .strict { order := .dedup } = .ok strict ∧
      ExactDominators twoEntryLoop nonStrict strict :=
  dominators_exact twoEntryLoop (by decide) ⟨_, rfl⟩ { order := .dedup }

example : (dominators twoEntryLoop .nonStrict {}).map Std.TreeMap.toList = .ok
    [("left", ["start", "left"]), ("right", ["start", "right"]), ("start", ["start"]),
      ("stop", ["start", "right", "stop"])] := by
  decide +kernel

end Midend
