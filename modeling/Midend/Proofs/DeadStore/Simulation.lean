import Midend.Proofs.DeadStore.Live

/-!
# Leaving out idle instructions

A body behaves like another when each of their runs shows what the other shows: the calls and
effects carried out, the hidden state, and where the run comes to an end. Instructions that only
write variables which are not live behind them can be left out without changing the behaviour. While
the shorter body runs, the variables of both runs agree as far as they are live.
-/

namespace Midend

open Lang

namespace Execution

variable {V S : Type}

/-- Calls and effects can be seen from outside. -/
def Event.isVisible (event : Event V) : Bool :=
  match event.op with
  | .inl op => op == .call
  | .inr _ => true

/-- The place at which a run has come to its end. -/
def Place.final? : Place → Option Place
  | .before _ => none
  | place => some place

/-- What can be seen of a run at one moment. -/
structure View (V S : Type) where
  performed : List (Event V)
  hidden : S
  final? : Option Place

/-- What can be seen of a state. -/
def State.view (state : State V S) : View V S where
  performed := state.performed.filter Event.isVisible
  hidden := state.hidden
  final? := state.place.final?

/-- Everything that runs of one body show is shown by runs of another from the same start. -/
def Imitates (meaning : Interpretation V S) (second first : List Entry) : Prop :=
  ∀ vars hidden steps, ∃ others,
    (meaning.run second others (.start vars hidden)).view =
      (meaning.run first steps (.start vars hidden)).view

/-- Only calls and effects touch the hidden state, and only `br`, `jmp` and `ret` keep control from
going on to the next entry. -/
structure Interpretation.IsSequential (meaning : Interpretation V S) : Prop where
  compute : ∀ op ty funcs labels operands hidden, op ≠ .call →
    (meaning.compute op ty funcs labels operands hidden).2 = hidden
  jump : ∀ op, op = .br ∨ op = .jmp → ∀ funcs labels operands hidden,
    if labels = [] then (meaning.perform op funcs labels operands hidden).2 = .stop
    else ∃ label ∈ labels, (meaning.perform op funcs labels operands hidden).2 = .jump label 0
  ret : ∀ funcs labels operands hidden,
    (meaning.perform .ret funcs labels operands hidden).2 = .stop
  onward : ∀ op, op ≠ .br → op ≠ .jmp → op ≠ .ret → ∀ funcs labels operands hidden,
    (meaning.perform op funcs labels operands hidden).2 = .onward

/-- Two bodies behave alike when, under every interpretation that goes on from entry to entry, their
runs show the same. -/
def Alike (first second : List Entry) : Prop :=
  ∀ (V S : Type) (meaning : Interpretation V S), meaning.IsSequential →
    Imitates meaning second first ∧ Imitates meaning first second

/-- A body behaves like itself. -/
theorem Alike.refl (body : List Entry) : Alike body body := fun _ _ _ _ =>
  ⟨fun _ _ steps => ⟨steps, rfl⟩, fun _ _ steps => ⟨steps, rfl⟩⟩

/-- What imitates a body that imitates another imitates the other. -/
theorem Imitates.trans {meaning : Interpretation V S} {first second third : List Entry}
    (one : Imitates meaning second first) (other : Imitates meaning third second) :
    Imitates meaning third first := by
  intro vars hidden steps
  obtain ⟨middle, same⟩ := one vars hidden steps
  obtain ⟨others, sameToo⟩ := other vars hidden middle
  exact ⟨others, sameToo.trans same⟩

/-- Bodies that behave like the same one behave alike. -/
theorem Alike.trans {first second third : List Entry} (one : Alike first second)
    (other : Alike second third) : Alike first third := by
  intro V S meaning sequential
  obtain ⟨forth, back⟩ := one V S meaning sequential
  obtain ⟨forthToo, backToo⟩ := other V S meaning sequential
  exact ⟨forth.trans forthToo, backToo.trans back⟩

end Execution

/-- The second list of entries is the first one, from a place on, without some instructions. Those
that are kept are such as may stay at their places, and those left out such as may leave. -/
inductive Pruned (stays leaves : Nat → Instruction → Prop) :
    Nat → List Entry → List Entry → Prop
  | nil {place : Nat} : Pruned stays leaves place [] []
  | label {place : Nat} {name : String} {pos : Option Position} {before after : List Entry}
    (others : Pruned stays leaves (place + 1) before after) :
    Pruned stays leaves place (.label name pos :: before) (.label name pos :: after)
  | keep {place : Nat} {instr : Instruction} {before after : List Entry}
    (isKept : stays place instr) (others : Pruned stays leaves (place + 1) before after) :
    Pruned stays leaves place (.instr instr :: before) (.instr instr :: after)
  | drop {place : Nat} {instr : Instruction} {before after : List Entry}
    (isLeft : leaves place instr) (others : Pruned stays leaves (place + 1) before after) :
    Pruned stays leaves place (.instr instr :: before) after

/-- The second list of entries is the first one, from a place on, without some instructions that are
idle at their places. -/
abbrev Thinned (idle : Nat → Instruction → Prop) : Nat → List Entry → List Entry → Prop :=
  Pruned (fun _ _ => True) idle

namespace Pruned

variable {stays leaves : Nat → Instruction → Prop} {place : Nat} {before after : List Entry}

/-- Bodies one behind the other are pruned one behind the other. -/
theorem append {more moreAfter : List Entry} (first : Pruned stays leaves place before after)
    (second : Pruned stays leaves (place + before.length) more moreAfter) :
    Pruned stays leaves place (before ++ more) (after ++ moreAfter) := by
  have onward {place : Nat} {rest : List Entry}
      (second : Pruned stays leaves (place + (rest.length + 1)) more moreAfter) :
      Pruned stays leaves (place + 1 + rest.length) more moreAfter := by
    rwa [Nat.add_assoc, Nat.add_comm 1]
  induction first with
  | nil => exact second
  | label _ ih => exact label (ih (onward second))
  | keep isKept _ ih => exact keep isKept (ih (onward second))
  | drop isLeft _ ih => exact drop isLeft (ih (onward second))

/-- A body is pruned in one way if no instruction may both stay and leave. -/
theorem unique (apart : ∀ place instr, leaves place instr → ¬stays place instr)
    {other : List Entry} (one : Pruned stays leaves place before after)
    (another : Pruned stays leaves place before other) : after = other := by
  induction one generalizing other with
  | nil =>
    cases another
    rfl
  | label _ ih =>
    cases another with
    | label others => rw [ih others]
  | keep isKept _ ih =>
    cases another with
    | keep _ others => rw [ih others]
    | drop isLeft => exact absurd isKept (apart _ _ isLeft)
  | drop isLeft _ ih =>
    cases another with
    | keep isKept => exact absurd isKept (apart _ _ isLeft)
    | drop _ others => exact ih others

/-- What is left are some of the entries, in order. -/
theorem sublist (pruned : Pruned stays leaves place before after) : after.Sublist before := by
  induction pruned with
  | nil => exact .slnil
  | label _ ih => exact ih.cons_cons _
  | keep _ _ ih => exact ih.cons_cons _
  | drop _ _ ih => exact ih.cons _

/-- Labels are left. -/
theorem filterMap_label? (pruned : Pruned stays leaves place before after) :
    after.filterMap Entry.label? = before.filterMap Entry.label? := by
  induction pruned with
  | nil => rfl
  | label _ ih => rw [List.filterMap_cons, List.filterMap_cons, ih]
  | keep _ _ ih => rw [List.filterMap_cons, List.filterMap_cons, ih]
  | drop _ _ ih => rw [List.filterMap_cons_none rfl, ih]

end Pruned

namespace Thinned

variable {idle : Nat → Instruction → Prop} {before after : List Entry}

/-- Any entry may stay. -/
theorem keep {place : Nat} {entry : Entry} (others : Thinned idle (place + 1) before after) :
    Thinned idle place (entry :: before) (entry :: after) := by
  cases entry with
  | label => exact .label others
  | instr => exact Pruned.keep trivial others

/-- A label is declared in a thinned body as often as before, and what stands behind each
declaration is thinned. -/
theorem declarations {place : Nat} (thinned : Thinned idle place before after) (label : String) :
    List.Forall₂ (fun first second =>
      Thinned idle (place + first) (before.drop first) (after.drop second))
      (Midend.declarations label before) (Midend.declarations label after) := by
  have kept {place : Nat} {before after : List Entry} (entry : Entry)
      (others : Thinned idle (place + 1) before after)
      (ih : List.Forall₂ (fun first second =>
        Thinned idle (place + 1 + first) (before.drop first) (after.drop second))
        (Midend.declarations label before) (Midend.declarations label after)) :
      List.Forall₂ (fun first second => Thinned idle (place + first)
        ((entry :: before).drop first) ((entry :: after).drop second))
        (Midend.declarations label (entry :: before))
        (Midend.declarations label (entry :: after)) := by
    have later : List.Forall₂ (fun first second => Thinned idle (place + first)
        ((entry :: before).drop first) ((entry :: after).drop second))
        ((Midend.declarations label before).map (· + 1))
        ((Midend.declarations label after).map (· + 1)) := by
      rw [List.forall₂_map_left_iff, List.forall₂_map_right_iff]
      refine ih.imp fun first second stands => ?_
      rwa [← Nat.add_assoc, Nat.add_right_comm]
    rw [Midend.declarations, Midend.declarations]
    split
    · exact .cons (keep others) later
    · exact later
  induction thinned with
  | nil => exact .nil
  | label others ih => exact kept _ others ih
  | keep _ others ih => exact kept _ others ih
  | @drop place instr before after isIdle others ih =>
    rw [Midend.declarations, Entry.declares, if_neg Bool.false_ne_true,
      List.forall₂_map_left_iff]
    refine ih.imp fun first second stands => ?_
    rwa [← Nat.add_assoc, Nat.add_right_comm]

/-- Both bodies have come to their ends, or stand at the same entry, or the first stands at an
instruction that is left out. -/
theorem cases_at {first second : Nat}
    (thinned : Thinned idle first (before.drop first) (after.drop second)) :
    (before[first]? = none ∧ after[second]? = none) ∨
      (∃ entry, before[first]? = some entry ∧ after[second]? = some entry ∧
        Thinned idle (first + 1) (before.drop (first + 1)) (after.drop (second + 1))) ∨
      ∃ instr, before[first]? = some (.instr instr) ∧ idle first instr ∧
        Thinned idle (first + 1) (before.drop (first + 1)) (after.drop second) := by
  rw [← List.head?_drop, ← List.head?_drop, ← List.tail_drop, ← List.tail_drop]
  generalize before.drop first = ahead at thinned ⊢
  generalize after.drop second = aheadAfter at thinned ⊢
  cases thinned with
  | nil => exact .inl ⟨rfl, rfl⟩
  | label others => exact .inr (.inl ⟨_, rfl, rfl, others⟩)
  | keep _ others => exact .inr (.inl ⟨_, rfl, rfl, others⟩)
  | drop isIdle others => exact .inr (.inr ⟨_, rfl, isIdle, others⟩)

end Thinned

namespace Execution

variable {V S : Type}

/-- Two runs have shown the same. Either the second stands where the first does, but for idle
instructions, and every variable that is live there has the same value in both, or both have come to
the same end. -/
inductive Matches (before after : List Entry) : State V S → State V S → Prop
  | running {first second : Nat} {vars varsAfter : String → V} {hidden : S}
    {performed performedAfter : List (Event V)}
    (stands : Thinned (IsIdle before) first (before.drop first) (after.drop second))
    (agree : ∀ name, Live before name first → vars name = varsAfter name)
    (seen : performed.filter Event.isVisible = performedAfter.filter Event.isVisible) :
    Matches before after ⟨.before first, vars, hidden, performed⟩
      ⟨.before second, varsAfter, hidden, performedAfter⟩
  | ended {place : Place} {vars varsAfter : String → V} {hidden : S}
    {performed performedAfter : List (Event V)} (final : place.final? = some place)
    (seen : performed.filter Event.isVisible = performedAfter.filter Event.isVisible) :
    Matches before after ⟨place, vars, hidden, performed⟩ ⟨place, varsAfter, hidden, performedAfter⟩

variable {before after : List Entry}

/-- Matching runs show the same. -/
theorem Matches.view_eq {first second : State V S} (same : Matches before after first second) :
    first.view = second.view := by
  cases same with
  | running _ _ seen => simp [State.view, Place.final?, seen]
  | ended _ seen => simp [State.view, seen]

/-- A run that has come to its end stays there. -/
theorem Interpretation.step_final (meaning : Interpretation V S) (body : List Entry)
    {state : State V S} (final : state.place.final? = some state.place) :
    meaning.step body state = state := by
  unfold Interpretation.step
  split
  next found => simp [found, Place.final?] at final
  next => rfl
  next => rfl

/-- An idle instruction changes a variable that is not live behind it, and shows nothing. -/
theorem Interpretation.IsSequential.step_idle {meaning : Interpretation V S}
    (sequential : meaning.IsSequential) {first : Nat} {vars varsAfter : String → V} {hidden : S}
    {performed performedAfter : List (Event V)} {instr : Instruction}
    (found : before[first]? = some (.instr instr)) (isIdle : IsIdle before first instr)
    (agree : ∀ name, Live before name first → vars name = varsAfter name)
    (seen : performed.filter Event.isVisible = performedAfter.filter Event.isVisible) :
    ∃ varsBehind performedBehind,
      meaning.step before ⟨.before first, vars, hidden, performed⟩ =
        ⟨.before (first + 1), varsBehind, hidden, performedBehind⟩ ∧
      (∀ name, Live before name (first + 1) → varsBehind name = varsAfter name) ∧
      performedBehind.filter Event.isVisible = performedAfter.filter Event.isVisible := by
  obtain ⟨pure, name, writes, unread⟩ := isIdle
  have follows : first + 1 ∈ placesBehind before first := by
    rw [placesBehind_onward found (isTerminator_of_pure pure)]
    exact List.mem_singleton_self _
  have agreeBehind (value : V) (other : String) (live : Live before other (first + 1)) :
      assign vars name value other = varsAfter other := by
    have different : other ≠ name := by
      rintro rfl
      exact unread live
    rw [assign, if_neg different]
    refine agree other (live_of_behind found follows ?_ live)
    rw [writes, ne_eq, Option.some.injEq]
    exact Ne.symm different
  rw [Interpretation.step]
  simp only [found]
  cases instr with
  | const dest ty literal pos =>
    obtain rfl : dest = name := by simpa [Instruction.dest?, Instruction.result?] using writes
    exact ⟨_, _, rfl, agreeBehind _, seen⟩
  | value op dest ty operands pos =>
    obtain rfl : dest = name := by simpa [Instruction.dest?, Instruction.result?] using writes
    have uncalled : op ≠ .call := by simpa [Instruction.hasSideEffects] using pure
    simp only [Interpretation.execute, sequential.compute op _ _ _ _ _ uncalled]
    refine ⟨_, _, rfl, agreeBehind _, ?_⟩
    rw [List.filter_append, seen]
    simp [Event.isVisible, uncalled]
  | effect => simp [Instruction.hasSideEffects] at pure

/-- After an assignment of one value on both sides the variables agree where they are live. -/
theorem agree_assign {body : List Entry} {place : Nat} {instr : Instruction} {dest : String}
    (found : body[place]? = some (.instr instr)) (writes : instr.dest? = some dest)
    (pure : instr.isTerminator = false) {vars varsAfter : String → V}
    (agree : ∀ name, Live body name place → vars name = varsAfter name) (value : V) (name : String)
    (live : Live body name (place + 1)) :
    assign vars dest value name = assign varsAfter dest value name := by
  unfold assign
  split
  · rfl
  next different =>
    refine agree name (live_of_behind found ?_ ?_ live)
    · rw [placesBehind_onward found pure]
      exact List.mem_singleton_self _
    · rw [writes, ne_eq, Option.some.injEq]
      exact Ne.symm different

/-- A jump takes matching runs to matching declarations of its label. -/
theorem Matches.after_jump (thinned : Thinned (IsIdle before) 0 before after) {first second : Nat}
    {vars varsAfter : String → V} {performed performedAfter : List (Event V)} {op : EffectOp}
    {operands : Operands} {pos : Option Position}
    (found : before[first]? = some (.instr (.effect op operands pos)))
    (jumps : op = .br ∨ op = .jmp) {label : String} (member : label ∈ operands.labels)
    (agree : ∀ name, Live before name first → vars name = varsAfter name)
    (seen : performed.filter Event.isVisible = performedAfter.filter Event.isVisible)
    (hidden : S) :
    Matches before after
      ⟨destination before first op operands.labels (.jump label 0), vars, hidden, performed⟩
      ⟨destination after second op operands.labels (.jump label 0), varsAfter, hidden,
        performedAfter⟩ := by
  have leaves : (Instruction.effect op operands pos).isTerminator = true := by
    rcases jumps with rfl | rfl <;> rfl
  have targets : (Instruction.effect op operands pos).jumpTargets = operands.labels := by
    rcases jumps with rfl | rfl <;> rfl
  have declared : ∀ target ∈ declarations label before, target ∈ placesBehind before first := by
    intro target isTarget
    simp only [placesBehind, found, leaves, if_true, targets, List.mem_flatMap]
    exact ⟨label, member, isTarget⟩
  have along := thinned.declarations label
  rw [destination, destination, if_pos member, if_pos member]
  generalize declarations label before = targets at along declared ⊢
  generalize declarations label after = targetsAfter at along ⊢
  cases along with
  | nil => exact .ended rfl seen
  | cons stands _ =>
    refine .running (by simpa using stands) (fun name live => ?_) seen
    refine agree name (live_of_behind found (declared _ List.mem_cons_self) ?_ live)
    simp [Instruction.dest?, Instruction.result?]

/-- An effect takes matching runs to matching places. -/
theorem Matches.after_effect {meaning : Interpretation V S} (sequential : meaning.IsSequential)
    (thinned : Thinned (IsIdle before) 0 before after) {first second : Nat}
    {vars varsAfter : String → V} {performed performedAfter : List (Event V)} {op : EffectOp}
    {operands : Operands} {pos : Option Position}
    (found : before[first]? = some (.instr (.effect op operands pos)))
    (others : Thinned (IsIdle before) (first + 1) (before.drop (first + 1))
      (after.drop (second + 1)))
    (agree : ∀ name, Live before name first → vars name = varsAfter name)
    (seen : performed.filter Event.isVisible = performedAfter.filter Event.isVisible)
    (values : List V) (hidden hiddenAfter : S) :
    Matches before after
      ⟨destination before first op operands.labels
        (meaning.perform op operands.funcs operands.labels values hidden).2,
        vars, hiddenAfter, performed⟩
      ⟨destination after second op operands.labels
        (meaning.perform op operands.funcs operands.labels values hidden).2,
        varsAfter, hiddenAfter, performedAfter⟩ := by
  by_cases jumps : op = .br ∨ op = .jmp
  · have goes := sequential.jump op jumps operands.funcs operands.labels values hidden
    split at goes
    next => rw [goes]; exact .ended rfl seen
    next =>
      obtain ⟨label, member, goes⟩ := goes
      rw [goes]
      exact .after_jump thinned found jumps member agree seen hiddenAfter
  · rw [not_or] at jumps
    by_cases returns : op = .ret
    · subst returns
      rw [sequential.ret]
      exact .ended rfl seen
    · have stays : (Instruction.effect op operands pos).isTerminator = false := by
        cases op <;> simp_all [Instruction.isTerminator]
      rw [sequential.onward op jumps.1 jumps.2 returns]
      refine .running others (fun name live => ?_) seen
      refine agree name (live_of_behind found ?_ ?_ live)
      · rw [placesBehind_onward found stays]
        exact List.mem_singleton_self _
      · simp [Instruction.dest?, Instruction.result?]

/-- An entry that both bodies have keeps runs matching. -/
theorem Matches.step_kept {meaning : Interpretation V S} (sequential : meaning.IsSequential)
    (thinned : Thinned (IsIdle before) 0 before after) {first second : Nat}
    {vars varsAfter : String → V} {hidden : S} {performed performedAfter : List (Event V)}
    {entry : Entry} (found : before[first]? = some entry) (foundAfter : after[second]? = some entry)
    (others : Thinned (IsIdle before) (first + 1) (before.drop (first + 1))
      (after.drop (second + 1)))
    (agree : ∀ name, Live before name first → vars name = varsAfter name)
    (seen : performed.filter Event.isVisible = performedAfter.filter Event.isVisible) :
    Matches before after (meaning.step before ⟨.before first, vars, hidden, performed⟩)
      (meaning.step after ⟨.before second, varsAfter, hidden, performedAfter⟩) := by
  rw [Interpretation.step, Interpretation.step]
  simp only [found, foundAfter]
  cases entry with
  | label name pos =>
    refine .running others (fun other live => agree other (.later ?_ ?_ live)) seen
    · simp [found]
    · simp [placesBehind, found]
  | instr instr =>
    have operands : instr.args.map vars = instr.args.map varsAfter :=
      List.map_congr_left fun name reads => agree name (.read found reads)
    cases instr with
    | const dest ty literal pos =>
      exact .running others (agree_assign found rfl rfl agree _) seen
    | value op dest ty names pos =>
      simp only [Interpretation.execute, Instruction.args, Instruction.operands] at operands ⊢
      rw [operands]
      refine .running others (agree_assign found rfl rfl agree _) ?_
      rw [List.filter_append, List.filter_append, seen]
    | effect op names pos =>
      simp only [Interpretation.execute, Instruction.args, Instruction.operands] at operands ⊢
      rw [operands]
      refine Matches.after_effect sequential thinned found others agree ?_ _ _ _
      rw [List.filter_append, List.filter_append, seen]

/-- Runs that have both run out of entries match. -/
theorem Matches.step_ended {meaning : Interpretation V S} {first second : Nat}
    {vars varsAfter : String → V} {hidden : S} {performed performedAfter : List (Event V)}
    (found : before[first]? = none) (foundAfter : after[second]? = none)
    (seen : performed.filter Event.isVisible = performedAfter.filter Event.isVisible) :
    Matches before after (meaning.step before ⟨.before first, vars, hidden, performed⟩)
      (meaning.step after ⟨.before second, varsAfter, hidden, performedAfter⟩) := by
  rw [Interpretation.step, Interpretation.step]
  simp only [found, foundAfter]
  exact .ended rfl seen

/-- A step of the longer body is matched by at most one step of the shorter one. -/
theorem Matches.forth {meaning : Interpretation V S} (sequential : meaning.IsSequential)
    (thinned : Thinned (IsIdle before) 0 before after) {first second : State V S}
    (same : Matches before after first second) :
    ∃ steps, Matches before after (meaning.step before first) (meaning.run after steps second) := by
  cases same with
  | ended final seen =>
    refine ⟨0, ?_⟩
    rw [meaning.step_final before final]
    exact .ended final seen
  | running stands agree seen =>
    rcases stands.cases_at with ⟨found, foundAfter⟩ | ⟨entry, found, foundAfter, others⟩ |
      ⟨instr, found, isIdle, others⟩
    · exact ⟨1, .step_ended found foundAfter seen⟩
    · exact ⟨1, .step_kept sequential thinned found foundAfter others agree seen⟩
    · obtain ⟨varsBehind, performedBehind, passed, agreeBehind, seenBehind⟩ :=
        sequential.step_idle found isIdle agree seen
      refine ⟨0, ?_⟩
      rw [passed]
      exact .running others agreeBehind seenBehind

/-- A step of the shorter body is matched by the idle instructions in front of it and a step of the
longer one. -/
theorem Matches.back {meaning : Interpretation V S} (sequential : meaning.IsSequential)
    (thinned : Thinned (IsIdle before) 0 before after) {first second : State V S}
    (same : Matches before after first second) :
    ∃ steps, Matches before after (meaning.run before steps first) (meaning.step after second) := by
  cases same with
  | ended final seen =>
    refine ⟨0, ?_⟩
    rw [meaning.step_final after final]
    exact .ended final seen
  | @running first second vars varsAfter hidden performed performedAfter stands agree seen =>
    -- The induction goes over the entries ahead, of which the idle ones are passed one by one.
    generalize total : before.length - first = ahead
    induction ahead generalizing first vars performed with
    | zero =>
      rcases stands.cases_at with ⟨found, foundAfter⟩ | ⟨entry, found, foundAfter, others⟩ |
        ⟨instr, found, isIdle, others⟩
      · exact ⟨1, .step_ended found foundAfter seen⟩
      · exact ⟨1, .step_kept sequential thinned found foundAfter others agree seen⟩
      · have inside := (List.getElem?_eq_some_iff.1 found).1
        omega
    | succ ahead ih =>
      rcases stands.cases_at with ⟨found, foundAfter⟩ | ⟨entry, found, foundAfter, others⟩ |
        ⟨instr, found, isIdle, others⟩
      · exact ⟨1, .step_ended found foundAfter seen⟩
      · exact ⟨1, .step_kept sequential thinned found foundAfter others agree seen⟩
      · obtain ⟨varsBehind, performedBehind, passed, agreeBehind, seenBehind⟩ :=
          sequential.step_idle found isIdle agree seen
        obtain ⟨steps, same⟩ := ih others agreeBehind seenBehind (by omega)
        refine ⟨steps + 1, ?_⟩
        rw [Interpretation.run, Function.iterate_succ_apply, passed]
        exact same

/-- Matching states go on to match, however far the longer body runs. -/
theorem Matches.run_forth {meaning : Interpretation V S} (sequential : meaning.IsSequential)
    (thinned : Thinned (IsIdle before) 0 before after) {first second : State V S}
    (same : Matches before after first second) (steps : Nat) :
    ∃ others, Matches before after (meaning.run before steps first)
      (meaning.run after others second) := by
  induction steps generalizing first second with
  | zero => exact ⟨0, same⟩
  | succ steps ih =>
    obtain ⟨one, next⟩ := same.forth sequential thinned
    obtain ⟨more, last⟩ := ih next
    refine ⟨more + one, ?_⟩
    rw [Interpretation.run, Interpretation.run, Function.iterate_succ_apply,
      Function.iterate_add_apply]
    exact last

/-- Matching states go on to match, however far the shorter body runs. -/
theorem Matches.run_back {meaning : Interpretation V S} (sequential : meaning.IsSequential)
    (thinned : Thinned (IsIdle before) 0 before after) {first second : State V S}
    (same : Matches before after first second) (steps : Nat) :
    ∃ others, Matches before after (meaning.run before others first)
      (meaning.run after steps second) := by
  induction steps generalizing first second with
  | zero => exact ⟨0, same⟩
  | succ steps ih =>
    obtain ⟨one, next⟩ := same.back sequential thinned
    obtain ⟨more, last⟩ := ih next
    refine ⟨more + one, ?_⟩
    rw [Interpretation.run, Interpretation.run, Function.iterate_succ_apply,
      Function.iterate_add_apply]
    exact last

/-- A body without some of its idle instructions behaves like the whole body. -/
theorem alike_of_thinned (thinned : Thinned (IsIdle before) 0 before after) :
    Alike before after := by
  intro V S meaning sequential
  have start (vars : String → V) (hidden : S) :
      Matches before after (.start vars hidden) (.start vars hidden) :=
    .running thinned (fun _ _ => rfl) rfl
  constructor
  · intro vars hidden steps
    obtain ⟨others, same⟩ := (start vars hidden).run_forth sequential thinned steps
    exact ⟨others, same.view_eq.symm⟩
  · intro vars hidden steps
    obtain ⟨others, same⟩ := (start vars hidden).run_back sequential thinned steps
    exact ⟨others, same.view_eq⟩

end Execution

end Midend
