import Midend.Proofs.Dataflow.Values

/-!
# Remarks on dominators

Annotating the functions of a program leaves one remark in every block that has dominators, behind
the remarks that it had, and changes nothing else. The functions are taken in the order of their
names until one fails; what stands in front of that one is annotated, and the rest is as it was.
-/

namespace Midend

/-- Blocks that differ in nothing but their remarks. -/
def Block.AlikeButNotes (block other : Block) : Prop :=
  other = { block with notes := other.notes }

/-- The block without remarks. -/
def Block.withoutNotes (block : Block) : Block :=
  { block with notes := [] }

/-- A text that says how a block is dominated and lists the labels of the blocks that do so. -/
inductive Dominance.Says : Dominance → List String → String → Prop
  | strict (labels : List String) :
    Says .strict labels ("strictly dominated by: " ++ ", ".intercalate labels)
  | nonStrict (labels : List String) :
    Says .nonStrict labels ("dominated by: " ++ ", ".intercalate labels)

/-- A block with dominators has one more remark, behind those that it had, which lists them; a block
without is as it was. -/
def Dominance.Remarks (kind : Dominance) (byLabel : Dominators) (block other : Block) : Prop :=
  match byLabel[block.label]? with
  | some labels =>
    ∃ remark, kind.Says labels remark ∧ other = { block with notes := block.notes ++ [remark] }
  | none => other = block

/-- The remark lists the labels. -/
theorem Dominance.says_note (kind : Dominance) (labels : List String) :
    kind.Says labels (kind.note labels) := by
  cases kind with
  | strict => exact .strict labels
  | nonStrict => exact .nonStrict labels

/-- Blocks have remarks on their dominators. -/
def Remarked (kind : Dominance) (options : Options) (before after : List Block) : Prop :=
  ∃ byLabel, dominators before kind options = .ok byLabel ∧
    List.Forall₂ (kind.Remarks byLabel) before after

/-- A remark changes nothing else. -/
theorem Dominance.Remarks.alikeButNotes {kind : Dominance} {byLabel : Dominators}
    {block other : Block} (remarks : kind.Remarks byLabel block other) :
    block.AlikeButNotes other := by
  unfold Remarks at remarks
  split at remarks
  · obtain ⟨_, -, rfl⟩ := remarks
    rfl
  · rw [remarks]
    rfl

/-- Blocks that have remarks differ in nothing else. -/
theorem Remarked.alikeButNotes {kind : Dominance} {options : Options} {before after : List Block}
    (remarked : Remarked kind options before after) :
    List.Forall₂ Block.AlikeButNotes before after := by
  obtain ⟨byLabel, -, along⟩ := remarked
  exact along.imp fun _ _ => Dominance.Remarks.alikeButNotes

/-- Dominators do not depend on remarks. -/
theorem dominators_of_alikeButNotes {before after : List Block}
    (alike : List.Forall₂ Block.AlikeButNotes before after) (kind : Dominance)
    (options : Options) : dominators after kind options = dominators before kind options := by
  have plain (blocks : List Block) : dominators (blocks.map Block.withoutNotes) kind options =
      dominators blocks kind options :=
    dominators_map Block.withoutNotes (fun _ => rfl) (fun _ => rfl) ..
  have same : after.map Block.withoutNotes = before.map Block.withoutNotes := by
    induction alike with
    | nil => rfl
    | cons first _ ih =>
      rw [List.map_cons, List.map_cons, ih, first]
      rfl
  rw [← plain after, same, plain]

/-- Annotating blocks fails when their dominators are not found, and otherwise leaves remarks. -/
theorem cases_of_noteDominators (blocks : List Block) (kind : Dominance) (options : Options) :
    (∃ after, noteDominators blocks kind options = .ok after ∧
        Remarked kind options blocks after) ∨
      ∃ fault, noteDominators blocks kind options = .error fault ∧
        dominators blocks kind options = .error fault := by
  unfold noteDominators
  cases found : dominators blocks kind options with
  | error fault => exact .inr ⟨fault, rfl, rfl⟩
  | ok byLabel =>
    refine .inl ⟨_, rfl, byLabel, found, ?_⟩
    rw [List.forall₂_map_right_iff, List.forall₂_same]
    intro block _
    unfold Dominance.Remarks
    cases byLabel[block.label]? with
    | none => rfl
    | some labels => exact ⟨_, kind.says_note labels, rfl⟩

/-- A function with remarks in its blocks. -/
abbrev RemarkedFunction (kind : Dominance) (options : Options)
    (before after : String × List Block) : Prop :=
  after.1 = before.1 ∧ Remarked kind options before.2 after.2

/-- Either every function is annotated, or those in front of the first that fails. -/
theorem cases_of_noteInOrder (kind : Dominance) (options : Options)
    (functions : List (String × List Block)) :
    (∃ annotated, noteInOrder kind options functions = (annotated, .ok ()) ∧
        List.Forall₂ (RemarkedFunction kind options) functions annotated) ∨
      ∃ front failing back annotated fault, functions = front ++ failing :: back ∧
        dominators failing.2 kind options = .error fault ∧
        noteInOrder kind options functions = (annotated ++ failing :: back, .error fault) ∧
        List.Forall₂ (RemarkedFunction kind options) front annotated := by
  induction functions with
  | nil => exact .inl ⟨[], rfl, .nil⟩
  | cons function functions ih =>
    obtain ⟨name, blocks⟩ := function
    rcases cases_of_noteDominators blocks kind options with
      ⟨after, annotated, remarked⟩ | ⟨fault, fails, unfound⟩
    · rw [noteInOrder, annotated]
      rcases ih with ⟨others, same, along⟩ | ⟨front, failing, back, others, fault, split, unfound,
        same, along⟩
      · refine .inl ⟨(name, after) :: others, ?_, .cons ⟨rfl, remarked⟩ along⟩
        rw [same]
      · refine .inr ⟨(name, blocks) :: front, failing, back, (name, after) :: others, fault, ?_,
          unfound, ?_, .cons ⟨rfl, remarked⟩ along⟩
        · rw [split, List.cons_append]
        · rw [same, List.cons_append]
    · refine .inr ⟨[], (name, blocks), functions, [], fault, rfl, unfound, ?_, .nil⟩
      rw [noteInOrder, fails]
      rfl

/-- Entries under distinct keys are found in the map that is made of them. -/
theorem getElem?_ofList_iff {β : Type} {items : List (String × β)}
    (distinct : (items.map Prod.fst).Nodup) (name : String) (value : β) :
    (Std.TreeMap.ofList items compare)[name]? = some value ↔ (name, value) ∈ items := by
  have apart : items.Pairwise fun one other => ¬compare one.1 other.1 = .eq := by
    refine (List.pairwise_map.1 distinct).imp fun {one other} different => ?_
    rwa [Std.LawfulEqCmp.compare_eq_iff_eq]
  have listed {other : β} (member : (name, other) ∈ items) :
      (Std.TreeMap.ofList items compare)[name]? = some other :=
    Std.TreeMap.getElem?_ofList_of_mem Std.ReflCmp.compare_self apart member
  constructor
  · intro found
    have member : name ∈ Std.TreeMap.ofList items compare := by
      rw [Std.TreeMap.mem_iff_isSome_getElem?, found]
      rfl
    rw [Std.TreeMap.mem_ofList, List.contains_iff_mem, List.mem_map] at member
    obtain ⟨⟨_, other⟩, stands, rfl⟩ := member
    have same := (listed stands).symm.trans found
    rwa [← Option.some.inj same]
  · exact listed

/-- Functions stand in the order of their names. -/
theorem pairwise_names (functions : BlocksByName) :
    (functions.toList.map Prod.fst).Pairwise (· < ·) := by
  rw [List.pairwise_map]
  exact (Std.TreeMap.ordered_keys_toList (t := functions)).imp fun ordered =>
    compareOfLessAndEq_eq_lt.1 ordered

/-- A function is among those listed when it is found under its name. -/
theorem mem_toList_iff (functions : BlocksByName) (name : String) (blocks : List Block) :
    (name, blocks) ∈ functions.toList ↔ functions[name]? = some blocks :=
  Std.TreeMap.mem_toList_iff_getElem?_eq_some

/-- Functions with remarks have the names that they had. -/
theorem names_eq {kind : Dominance} {options : Options}
    {functions annotated : List (String × List Block)}
    (along : List.Forall₂ (RemarkedFunction kind options) functions annotated) :
    annotated.map Prod.fst = functions.map Prod.fst := by
  induction along with
  | nil => rfl
  | cons first _ ih => rw [List.map_cons, List.map_cons, first.1, ih]

/-- The names in front of one in a row are those that sort before it. -/
theorem mem_front_iff {front back : List (String × List Block)} {failing : String × List Block}
    (ordered : ((front ++ failing :: back).map Prod.fst).Pairwise (· < ·))
    {function : String × List Block} (member : function ∈ front ++ failing :: back) :
    function ∈ front ↔ function.1 < failing.1 := by
  rw [List.pairwise_map, List.pairwise_append, List.pairwise_cons] at ordered
  obtain ⟨-, ⟨behind, -⟩, before⟩ := ordered
  constructor
  · exact fun early => before function early failing List.mem_cons_self
  · intro early
    rcases List.mem_append.1 member with first | later
    · exact first
    · rcases List.mem_cons.1 later with rfl | last
      · exact absurd early (String.lt_irrefl _)
      · exact absurd (String.lt_trans early (behind function last)) (String.lt_irrefl _)

/-- Functions of which some have been annotated: under the names of these are blocks with remarks,
and under the others what was there. -/
structure RemarkedAt (kind : Dominance) (options : Options) (front : List (String × List Block))
    (functions result : BlocksByName) : Prop where
  listed : ∀ function ∈ front, functions[function.1]? = some function.2
  remarked : ∀ function ∈ front, ∃ after, result[function.1]? = some after ∧
    Remarked kind options function.2 after
  kept : ∀ name, (∀ before, (name, before) ∉ front) → result[name]? = functions[name]?

/-- Annotating functions in a row annotates those in front. -/
theorem remarkedAt_ofList {kind : Dominance} {options : Options} {functions : BlocksByName}
    {front back annotated : List (String × List Block)} (split : functions.toList = front ++ back)
    (along : List.Forall₂ (RemarkedFunction kind options) front annotated) :
    RemarkedAt kind options front functions (.ofList (annotated ++ back)) := by
  have names : (annotated ++ back).map Prod.fst = functions.toList.map Prod.fst := by
    rw [split, List.map_append, List.map_append, names_eq along]
  have distinct : ((annotated ++ back).map Prod.fst).Nodup := by
    rw [names]
    exact (pairwise_names functions).imp String.ne_of_lt
  constructor
  · intro function member
    rw [← mem_toList_iff, split]
    exact List.mem_append_left _ member
  · intro function member
    obtain ⟨⟨_, after⟩, among, rfl, remarked⟩ := exists_of_forall₂ along member
    exact ⟨after, (getElem?_ofList_iff distinct _ _).2 (List.mem_append_left _ among), remarked⟩
  · intro name absent
    ext after
    rw [getElem?_ofList_iff distinct, ← mem_toList_iff, split, List.mem_append, List.mem_append]
    refine or_congr_left ⟨fun among => ?_, fun member => absurd member (absent after)⟩
    have listed : name ∈ annotated.map Prod.fst := List.mem_map.2 ⟨_, among, rfl⟩
    rw [names_eq along, List.mem_map] at listed
    obtain ⟨⟨_, before⟩, member, rfl⟩ := listed
    exact absurd member (absent before)

namespace RemarkedAt

variable {kind : Dominance} {options : Options} {front : List (String × List Block)}
  {functions result : BlocksByName}

/-- What is found under a name has remarks or is as it was. -/
theorem cases_of_getElem? (noted : RemarkedAt kind options front functions result) {name : String}
    {before : List Block} (found : functions[name]? = some before) :
    (∃ after, result[name]? = some after ∧ Remarked kind options before after) ∨
      result[name]? = some before := by
  by_cases member : (name, before) ∈ front
  · exact .inl (noted.remarked _ member)
  · refine .inr ((noted.kept name fun other among => ?_).trans found)
    obtain rfl : before = other :=
      Option.some.inj (found.symm.trans (noted.listed (name, other) among))
    exact member among

/-- Annotating some functions keeps their names. -/
theorem mem_iff (noted : RemarkedAt kind options front functions result) (name : String) :
    name ∈ result ↔ name ∈ functions := by
  rw [Std.TreeMap.mem_iff_isSome_getElem?, Std.TreeMap.mem_iff_isSome_getElem?]
  cases found : functions[name]? with
  | none =>
    have absent : ∀ before, (name, before) ∉ front := fun before member => by
      rw [noted.listed (name, before) member] at found
      cases found
    rw [noted.kept name absent, found]
  | some before =>
    obtain ⟨after, same, -⟩ | same := noted.cases_of_getElem? found
    · simp [same]
    · simp [same]

/-- Annotating some functions keeps everything in their blocks but the remarks, and so their
dominators. -/
theorem alikeButNotes (noted : RemarkedAt kind options front functions result) (name : String)
    (before after : List Block) (found : functions[name]? = some before)
    (foundAfter : result[name]? = some after) :
    List.Forall₂ Block.AlikeButNotes before after ∧
      ∀ kind options, dominators after kind options = dominators before kind options := by
  have alike : List.Forall₂ Block.AlikeButNotes before after := by
    obtain ⟨other, same, remarked⟩ | same := noted.cases_of_getElem? found
    · obtain rfl : after = other := Option.some.inj (foundAfter.symm.trans same)
      exact remarked.alikeButNotes
    · obtain rfl : after = before := Option.some.inj (foundAfter.symm.trans same)
      exact List.forall₂_same.2 fun block _ => rfl
  exact ⟨alike, dominators_of_alikeButNotes alike⟩

end RemarkedAt

/-- Annotating the functions of a program keeps their names, everything in their blocks but the
remarks, and what is computed of them. When it succeeds, every function has remarks on its
dominators. When it fails, it is with the fault of the first function, by name, whose dominators are
not found: those in front of that one have remarks, and that one and those behind it are as they
were. -/
theorem noteDominators_byName (functions : BlocksByName) (kind : Dominance) (options : Options) :
    let result := functions.noteDominators kind options
    (∀ name, name ∈ result.1 ↔ name ∈ functions) ∧
      (∀ (name : String) (before after : List Block), functions[name]? = some before →
        result.1[name]? = some after → List.Forall₂ Block.AlikeButNotes before after ∧
          ∀ kind options, dominators after kind options = dominators before kind options) ∧
      (result.2 = .ok () → ∀ (name : String) (before : List Block),
        functions[name]? = some before →
        ∃ after, result.1[name]? = some after ∧ Remarked kind options before after) ∧
      ∀ fault, result.2 = .error fault → ∃ (failing : String) (blocks : List Block),
        functions[failing]? = some blocks ∧ dominators blocks kind options = .error fault ∧
          (∀ (name : String) (before : List Block), name < failing →
            functions[name]? = some before →
            ∃ after, result.1[name]? = some after ∧ Remarked kind options before after) ∧
          ∀ name : String, ¬name < failing → result.1[name]? = functions[name]? := by
  intro result
  have unfolded : result = (.ofList (noteInOrder kind options functions.toList).1,
      (noteInOrder kind options functions.toList).2) := rfl
  obtain ⟨annotated, done, along⟩ | ⟨front, failing, back, annotated, fault, split, unfound, done,
    along⟩ := cases_of_noteInOrder kind options functions.toList
  · rw [unfolded, done]
    have noted := remarkedAt_ofList (List.append_nil _).symm along
    rw [List.append_nil] at noted
    refine ⟨noted.mem_iff, noted.alikeButNotes, fun _ name before found => ?_, nofun⟩
    exact noted.remarked (name, before) ((mem_toList_iff functions name before).2 found)
  · rw [unfolded, done]
    have noted := remarkedAt_ofList split along
    have ordered := pairwise_names functions
    rw [split] at ordered
    refine ⟨noted.mem_iff, noted.alikeButNotes, nofun, ?_⟩
    rintro other fails
    obtain rfl := Except.error.inj fails
    refine ⟨failing.1, failing.2, ?_, unfound, fun name before early found => ?_,
      fun name late => ?_⟩
    · rw [← mem_toList_iff, split]
      simp
    · rw [← mem_toList_iff, split] at found
      exact noted.remarked (name, before) ((mem_front_iff ordered found).2 early)
    · refine noted.kept name fun before member => late ?_
      exact (mem_front_iff ordered (List.mem_append_left _ member)).1 member

/-- A function with a block that control never reaches, one that jumps to a label that is missing,
and one behind it that has nothing wrong. -/
def brokenBetween : List (String × List Block) := [
  ("alpha", [
    { label := "enter", next := ["leave"], notes := ["first"] },
    { label := "leave" },
    { label := "lost", next := ["leave"], notes := ["never reached"] }]),
  ("broken", [{ label := "enter", next := ["nowhere"] }]),
  ("calm", [{ label := "enter" }])]

/-- The function in front of the broken one has remarks, the one behind it has none. The remarks are
the last ones of blocks that control reaches. -/
theorem noteDominators_byName_brokenBetween :
    let functions : BlocksByName := .ofList brokenBetween
    (∃ before after, functions["alpha"]? = some before ∧
        (functions.noteDominators .nonStrict {}).1["alpha"]? = some after ∧
        Remarked .nonStrict {} before after ∧ after.map Block.notes =
          [["first", "dominated by: enter"], ["dominated by: enter, leave"], ["never reached"]]) ∧
      (functions.noteDominators .nonStrict {}).1["calm"]? = functions["calm"]? := by
  intro functions
  have holds {name : String} {blocks : List Block} :
      functions[name]? = some blocks ↔ (name, blocks) ∈ brokenBetween :=
    getElem?_ofList_iff (by decide) name blocks
  obtain ⟨-, -, -, fails⟩ := noteDominators_byName functions .nonStrict {}
  obtain ⟨failing, blocks, found, unfound, early, late⟩ :=
    fails (.unresolvedLabel "enter" "nowhere") (by decide +kernel)
  have sound : ∀ function ∈ brokenBetween, function.1 ≠ "broken" →
      (dominators function.2 .nonStrict {}).toBool = true := by
    decide +kernel
  obtain rfl : failing = "broken" := by
    by_contra other
    have succeeds := sound _ (holds.1 found) other
    rw [unfound] at succeeds
    cases succeeds
  have alpha := holds.2 (List.mem_cons_self ..)
  obtain ⟨after, noted, remarked⟩ := early _ _ (by decide) alpha
  have listed : ((functions.noteDominators .nonStrict {}).1["alpha"]?).map
      (fun blocks => blocks.map Block.notes) = some
        [["first", "dominated by: enter"], ["dominated by: enter, leave"], ["never reached"]] := by
    decide +kernel
  rw [noted, Option.map_some, Option.some.injEq] at listed
  exact ⟨⟨_, after, alpha, noted, remarked, listed⟩, late "calm" (by decide)⟩

end Midend
