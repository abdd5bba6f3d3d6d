import Midend.Proofs.Block.Successors

/-!
# Control flow of bodies

Where control may go from an entry of a body, without any blocks: to the next entry, or from a jump
to the entries that declare its labels. The blocks of a laid out body agree with it.
-/

namespace Midend

open Lang Execution

/-- The places that control may go to from an entry. -/
def placesBehind (body : List Entry) (place : Nat) : List Nat :=
  match body[place]? with
  | none => []
  | some (.label ..) => [place + 1]
  | some (.instr instr) =>
    if instr.isTerminator then instr.jumpTargets.flatMap fun label => declarations label body
    else [place + 1]

/-- An instruction is the first one from a place on when only labels stand between. -/
structure FirstFrom (body : List Entry) (place first : Nat) : Prop where
  ordered : place ≤ first
  isInstr : ∃ instr, body[first]? = some (.instr instr)
  labels_between : ∀ between, place ≤ between → between < first →
    ∃ name pos, body[between]? = some (.label name pos)

/-- Labels in front of a first instruction are not counted. -/
theorem FirstFrom.numberAt_eq {body : List Entry} {place first : Nat}
    (isFirst : FirstFrom body place first) : numberAt body first = numberAt body place := by
  obtain ⟨gap, rfl⟩ := Nat.exists_eq_add_of_le isFirst.ordered
  have labels := isFirst.labels_between
  clear isFirst
  induction gap with
  | zero => rfl
  | succ gap ih =>
    obtain ⟨name, pos, found⟩ := labels (place + gap) (by omega) (by omega)
    have counted := numberAt_succ body (place + gap)
    rw [found, ih fun between atLeast below => labels between atLeast (by omega)] at counted
    exact counted

/-- From a place with an instruction at it or behind it there is a first one. -/
theorem exists_firstFrom (body : List Entry) (place : Nat)
    (ahead : numberAt body place < (body.filterMap Entry.instr?).length) :
    ∃ first, FirstFrom body place first := by
  have inside : place < body.length := by
    by_contra beyond
    rw [numberAt, List.take_of_length_le (by omega)] at ahead
    omega
  obtain ⟨gap, total⟩ := Nat.exists_eq_add_of_le (Nat.le_of_lt inside)
  induction gap generalizing place with
  | zero => omega
  | succ gap ih =>
    cases found : body[place]? with
    | none =>
      rw [List.getElem?_eq_none_iff] at found
      omega
    | some entry =>
      cases entry with
      | instr instr =>
        exact ⟨place, Nat.le_refl place, ⟨instr, found⟩, fun between _ _ => by omega⟩
      | label name pos =>
        have counted := numberAt_succ body place
        rw [found] at counted
        have later : numberAt body (place + 1) < (body.filterMap Entry.instr?).length := by
          rwa [counted]
        have within : place + 1 < body.length := by
          by_contra beyond
          rw [numberAt, List.take_of_length_le (by omega)] at later
          omega
        obtain ⟨first, isFirst⟩ := ih (place + 1) later within (by omega)
        refine ⟨first, by have := isFirst.ordered; omega, isFirst.isInstr, ?_⟩
        intro between atLeast below
        by_cases here : between = place
        · exact ⟨name, pos, here ▸ found⟩
        · exact isFirst.labels_between between (by omega) below

/-- The first instruction from a place on has the number of that place, if there are as many
instructions. -/
theorem exists_firstFrom_iff (body : List Entry) (place number : Nat) :
    (∃ first, FirstFrom body place first ∧ numberAt body first = number) ↔
      number = numberAt body place ∧ number < (body.filterMap Entry.instr?).length := by
  constructor
  · rintro ⟨first, isFirst, rfl⟩
    obtain ⟨instr, found⟩ := isFirst.isInstr
    exact ⟨isFirst.numberAt_eq, numberAt_lt found⟩
  · rintro ⟨rfl, ahead⟩
    obtain ⟨first, isFirst⟩ := exists_firstFrom body place ahead
    exact ⟨first, isFirst, isFirst.numberAt_eq⟩

/-- The last instruction of a laid out block lets control into the starts of the successors. -/
theorem Laid.mem_placesBehind_terminator {blocks : List Block} (laid : Laid blocks)
    {successors : List (List Nat)} (table : successorTable blocks = .ok successors) {index : Nat}
    {block : Block} (found : blocks[index]? = some block) {offset : Nat} {instr : Instruction}
    (within : block.instrs[offset]? = some instr) (leaves : instr.isTerminator = true)
    (place : Nat) :
    place ∈ placesBehind (blocks.flatMap Block.code)
        (startOf blocks index + (block.width + offset)) ↔
      ∃ target ∈ (successors[index]?).getD [], place = startOf blocks target := by
  obtain ⟨-, ends⟩ := (laid.ends index block found).eq_last within leaves
  have inside : offset < block.instrs.length := (List.getElem?_eq_some_iff.1 within).1
  have stands := getElem?_flatMap_code found inside
  rw [within, Option.map_some] at stands
  simp only [placesBehind, stands, leaves, if_true, List.mem_flatMap,
    laid.mem_successors_terminator table found ends]
  constructor
  · rintro ⟨label, jumps, declared⟩
    obtain ⟨target, other, standsOther, same, rfl⟩ :=
      (laid.mem_declarations_iff (List.mem_of_getElem? found) (List.mem_of_getElem? within)
        jumps place).1 declared
    exact ⟨target, ⟨label, jumps, other, standsOther, same⟩, rfl⟩
  · rintro ⟨target, ⟨label, jumps, other, standsOther, same⟩, rfl⟩
    exact ⟨label, jumps, (laid.mem_declarations_iff (List.mem_of_getElem? found)
      (List.mem_of_getElem? within) jumps _).2 ⟨target, other, standsOther, same, rfl⟩⟩

/-- Any other instruction lets control on to the next entry. -/
theorem placesBehind_onward {body : List Entry} {place : Nat} {instr : Instruction}
    (found : body[place]? = some (.instr instr)) (stays : instr.isTerminator = false) :
    placesBehind body place = [place + 1] := by
  rw [placesBehind, found]
  simp [stays]

end Midend
