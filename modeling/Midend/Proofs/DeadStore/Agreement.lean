import Midend.Proofs.DeadStore.Paths

/-!
# Dead stores and reaching definitions

The walk through the blocks of a function and the analysis of reaching definitions, which goes along
the edges between instructions, agree: the dead stores are those that reach no instruction which
reads their variable. The analysis tells assignments apart by their rows, so that instructions must
have rows of their own.
-/

namespace Midend

open Lang

/-- Of a function whose instructions have rows of their own, the reaching definitions at the row of
an instruction are those that reach it. -/
theorem ExactReaching.mem_origins_iff {function : Function} {graph : Graph Site}
    {result : ReachingByRow} (exact : ExactReaching function graph result)
    (distinct : function.rows.Nodup) {id row : Nat} (stands : function.rows[id]? = some row) :
    (row ∈ result ↔ graph.Reachable id) ∧
      ∀ name origin, (∃ byName origins, result[row]? = some byName ∧
          byName[name]? = some origins ∧ origin ∈ origins) ↔
        graph.Reachable id ∧ ReachedBy function graph id name origin := by
  have only {other : Nat} (standsToo : function.rows[other]? = some row) : other = id :=
    ((List.getElem?_inj (List.getElem?_eq_some_iff.1 stands).1 distinct).1
      (stands.trans standsToo.symm)).symm
  have listed : row ∈ result ↔ graph.Reachable id := by
    rw [exact.rows_iff]
    constructor
    · rintro ⟨other, reachable, standsToo⟩
      rwa [only standsToo] at reachable
    · exact fun reachable => ⟨id, reachable, stands⟩
  refine ⟨listed, fun name origin => ⟨?_, ?_⟩⟩
  · rintro ⟨byName, origins, isEntry, isNamed, member⟩
    have reachable := listed.1 (Std.TreeMap.mem_iff_isSome_getElem?.2 (by rw [isEntry]; rfl))
    obtain ⟨found, isFound, -, reaches⟩ := exact.at_last row id reachable stands
      fun later _ standsToo => Nat.le_of_eq (only standsToo)
    obtain rfl := Option.some.inj (isEntry.symm.trans isFound)
    exact ⟨reachable, (reaches name origins isNamed origin).1 member⟩
  · rintro ⟨reachable, reached⟩
    obtain ⟨byName, isEntry, names, reaches⟩ := exact.at_last row id reachable stands
      fun later _ standsToo => Nat.le_of_eq (only standsToo)
    obtain ⟨origins, isNamed⟩ := Option.isSome_iff_exists.1
      (Std.TreeMap.mem_iff_isSome_getElem?.1 ((names name).2 ⟨origin, reached⟩))
    exact ⟨byName, origins, isEntry, isNamed, (reaches name origins isNamed origin).2 reached⟩

/-- A definition on the row of an assignment reaches where control can come from behind that one,
past no other assignment to its variable. -/
theorem reachedBy_iff_path {function : Function} {graph : Graph Site}
    (distinct : function.rows.Nodup) (apart : function.headerRow ∉ function.rows) {id row : Nat}
    (stands : function.rows[id]? = some row) (reachable : graph.Reachable id) {name : String}
    (defines : Defines graph name id) (number : Nat) :
    ReachedBy function graph number name row ↔
      ∃ first ∈ graph.nextOf id, Relation.ReflTransGen (LeavesAlone graph name) first number := by
  constructor
  · intro reached
    cases reached with
    | @assigned source first _ _ standsToo follows path =>
      have same := (List.getElem?_inj (List.getElem?_eq_some_iff.1 stands).1 distinct).1
        (stands.trans standsToo.symm)
      exact ⟨first, same ▸ follows, path⟩
    | passed _ _ same _ => exact absurd (same ▸ List.mem_of_getElem? stands) apart
  · rintro ⟨first, follows, path⟩
    exact .assigned reachable defines stands follows path

/-- An instruction that does no more than write a variable, on a row with reaching definitions, and
whose row is not given for the variable on the row of any instruction that reads it. -/
def ReachesNoRead (function : Function) (result : ReachingByRow) (index offset : Nat) : Prop :=
  ∃ (block : Block) (instr : Instruction) (name : String) (row : Nat),
    function.blocks[index]? = some block ∧ block.instrs[offset]? = some instr ∧
    instr.dest? = some name ∧ instr.hasSideEffects = false ∧
    function.rows[baseOf function.blocks index + offset]? = some row ∧ row ∈ result ∧
    ∀ (number readRow : Nat) (reader : Instruction) (byName : RowsByName)
      (origins : Std.TreeSet Nat),
      (function.body.filterMap Entry.instr?)[number]? = some reader → name ∈ reader.args →
      function.rows[number]? = some readRow → result[readRow]? = some byName →
      byName[name]? = some origins → row ∉ origins

/-- A store is read from behind it when the reaching definitions at the row of an instruction that
reads its variable give its row. -/
theorem Mirrors.readFrom_iff_origins {function : Function} {successors : List (List Nat)}
    {graph : Graph Site} (mirrors : Mirrors function.blocks successors graph)
    {result : ReachingByRow} (exact : ExactReaching function graph result)
    (distinct : function.rows.Nodup) (apart : function.headerRow ∉ function.rows)
    (count : function.rows.length = graph.size) {index offset row : Nat} {block : Block}
    {instr : Instruction} {name : String} (found : function.blocks[index]? = some block)
    (within : block.instrs[offset]? = some instr) (writes : instr.dest? = some name)
    (stands : function.rows[baseOf function.blocks index + offset]? = some row)
    (reachable : graph.Reachable (baseOf function.blocks index + offset)) :
    ReadFrom function.blocks name index (offset + 1) ↔
      ∃ (number readRow : Nat) (reader : Instruction) (byName : RowsByName)
        (origins : Std.TreeSet Nat),
        (function.body.filterMap Entry.instr?)[number]? = some reader ∧ name ∈ reader.args ∧
        function.rows[number]? = some readRow ∧ result[readRow]? = some byName ∧
        byName[name]? = some origins ∧ row ∈ origins := by
  have inside := (List.getElem?_eq_some_iff.1 within).1
  obtain ⟨node, isNode, isInstr⟩ := mirrors.exists_node? found within
  have reaches := reachedBy_iff_path distinct apart stands reachable
    ⟨node, isNode, isInstr ▸ writes⟩
  have instrs := mirrors.instrs
  rw [← filterMap_flatMap_code, flatMap_code_blocks] at instrs
  rw [mirrors.readFrom_iff]
  constructor
  · rintro ⟨first, number, met, path, reader, isReader, reads⟩
    have follows := (mirrors.mem_nextOf_iff found inside first).2 met
    have reachableToo : graph.Reachable number := by
      clear isReader
      induction path with
      | refl => exact reachable.next follows
      | tail _ step ih => exact ih.next step.2
    have counted : number < function.rows.length := by
      rw [count]
      exact (Array.getElem?_eq_some_iff.1 isReader).1
    have standsToo := List.getElem?_eq_getElem counted
    obtain ⟨byName, origins, isEntry, isNamed, member⟩ :=
      ((exact.mem_origins_iff distinct standsToo).2 name row).2
        ⟨reachableToo, (reaches number).2 ⟨first, follows, path⟩⟩
    refine ⟨number, _, reader.value.instr, byName, origins, ?_, reads, standsToo, isEntry, isNamed,
      member⟩
    rw [← instrs, isReader, Option.map_some]
  · rintro ⟨number, readRow, reader, byName, origins, isReader, reads, standsToo, isEntry, isNamed,
      member⟩
    obtain ⟨-, reached⟩ := ((exact.mem_origins_iff distinct standsToo).2 name row).1
      ⟨byName, origins, isEntry, isNamed, member⟩
    obtain ⟨first, follows, path⟩ := (reaches number).1 reached
    rw [← instrs, Option.map_eq_some_iff] at isReader
    obtain ⟨other, isOther, rfl⟩ := isReader
    exact ⟨first, number, (mirrors.mem_nextOf_iff found inside first).1 follows, path, other,
      isOther, reads⟩

/-- A dead store of the blocks of a function is a store that reaches no read. -/
theorem Mirrors.isDeadStore_iff {function : Function} {successors : List (List Nat)}
    {graph : Graph Site} (mirrors : Mirrors function.blocks successors graph)
    {result : ReachingByRow} (exact : ExactReaching function graph result)
    (distinct : function.rows.Nodup) (apart : function.headerRow ∉ function.rows)
    (count : function.rows.length = graph.size) (index offset : Nat) :
    IsDeadStore function.blocks index offset ↔ ReachesNoRead function result index offset := by
  have first := Function.reachable_of_mem_firstNodes mirrors
  constructor
  · rintro ⟨reaches, block, instr, name, found, within, writes, pure, unread⟩
    have inside := (List.getElem?_eq_some_iff.1 within).1
    have reachable := (mirrors.reachable_iff first found inside).2 reaches
    obtain ⟨node, isNode, -⟩ := mirrors.exists_node? found within
    have counted : baseOf function.blocks index + offset < function.rows.length := by
      rw [count]
      exact (Array.getElem?_eq_some_iff.1 isNode).1
    have stands := List.getElem?_eq_getElem counted
    refine ⟨block, instr, name, _, found, within, writes, pure, stands,
      (exact.mem_origins_iff distinct stands).1.2 reachable, ?_⟩
    intro number readRow reader byName origins isReader reads standsToo isEntry isNamed member
    exact unread ((mirrors.readFrom_iff_origins exact distinct apart count found within writes
      stands reachable).2 ⟨number, readRow, reader, byName, origins, isReader, reads, standsToo,
        isEntry, isNamed, member⟩)
  · rintro ⟨block, instr, name, row, found, within, writes, pure, stands, listed, unread⟩
    have inside := (List.getElem?_eq_some_iff.1 within).1
    have reachable := (exact.mem_origins_iff distinct stands).1.1 listed
    refine ⟨(mirrors.reachable_iff first found inside).1 reachable, block, instr, name, found,
      within, writes, pure, fun ahead => ?_⟩
    obtain ⟨number, readRow, reader, byName, origins, isReader, reads, standsToo, isEntry, isNamed,
      member⟩ := (mirrors.readFrom_iff_origins exact distinct apart count found within writes stands
        reachable).1 ahead
    exact unread number readRow reader byName origins isReader reads standsToo isEntry isNamed
      member

end Midend
