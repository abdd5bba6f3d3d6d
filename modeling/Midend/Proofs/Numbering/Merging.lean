import Mathlib.Logic.Function.Basic
import Midend.Proofs.Numbering.Equality
import Midend.Proofs.Numbering.Keeping

/-!
# Pools that merge into others

Values that one pool tells apart may have one number in another. The numbers of the first pool then
go over to those of the second in such a way that expressions go over to expressions, variables keep
their values, and the variables that hold a number are among those that hold the number that it goes
over to, in the same order. The relation outlasts a step of both pools past one instruction, as long
as the second takes operands in any order where the first does. What the second pool leaves as it
is, the first leaves as it is too.
-/

namespace Midend

open Lang

/-- An expression over the numbers that its own go over to, with the operands arranged anew. -/
def Expr.over (options : Options) (image : Nat → Nat) : Expr → Expr
  | .unknown number => .unknown (image number)
  | .constant literal => .constant literal
  | .apply op operands => .apply op (options.arrange op (operands.map image))

/-- Two sound pools, where the numbers of the first go over to numbers of the second: each has there
the expression that its own goes over to, the variables have the numbers that theirs go over to, and
of the variables that hold a number there, those that have it in the first pool hold it in the same
order. -/
structure Pool.MergesInto (options : Options) (image : Nat → Nat) (pool merged : Pool) : Prop where
  sound : pool.Sound
  sound_merged : merged.Sound
  expr?_eq : ∀ number expr, pool.table.expr? number = some expr →
    merged.table.expr? (image number) = some (expr.over options image)
  numbers_eq : ∀ name : String, merged.numbers[name]? = pool.numbers[name]?.map image
  holdersOf_eq : ∀ number, pool.holdersOf number =
    (merged.holdersOf (image number)).filter fun name => pool.numbers[name]? = some number

/-- Two pools made from two others so that given numbers go over to given numbers, while the numbers
that were handed out before go over as they did. -/
def Pool.MergesOn (options : Options) (image : Nat → Nat) (before : Pool)
    (numbers others : List Nat) (pool merged : Pool) : Prop :=
  ∃ later : Nat → Nat, (∀ number < before.table.size, later number = image number) ∧
    before.table.size ≤ pool.table.size ∧ (∀ number ∈ numbers, number < pool.table.size) ∧
    others = numbers.map later ∧ pool.MergesInto options later merged

/-- Where operands are taken in any order, arranging them before they go over to others makes no
difference. -/
theorem Options.arrange_map_arrange {options others : Options}
    (looser : options.commutative = true → others.commutative = true) (op : ValueOp)
    (image : Nat → Nat) (operands : List Nat) :
    others.arrange op ((options.arrange op operands).map image) =
      others.arrange op (operands.map image) := by
  by_cases unordered : (options.commutative && op.isCommutative) = true
  · have sorted : (options.arrange op operands).Perm operands := by
      rw [arrange, if_pos unordered]
      exact List.mergeSort_perm operands _
    rw [Bool.and_eq_true] at unordered
    exact arrange_eq_of_perm (by simp [looser unordered.1, unordered.2]) (sorted.map image)
  · rw [arrange.eq_def options, if_neg unordered]

/-- An expression that equals itself goes over to one that does. -/
theorem Expr.equals_self_over {expr : Expr} (reflexive : expr.equals expr = true)
    (options : Options) (image : Nat → Nat) :
    (expr.over options image).equals (expr.over options image) = true := by
  cases expr with
  | constant literal => exact reflexive
  | unknown number => exact equals_self_unknown _
  | apply op operands => exact equals_self_apply op _

namespace Pool

variable {options others : Options} {image : Nat → Nat} {pool merged : Pool}

/-- An expression of a table goes over to the same one whatever newer numbers go over to. -/
theorem Sound.over_congr (sound : pool.Sound) {number : Nat} {expr : Expr}
    (found : pool.table.expr? number = some expr) {later : Nat → Nat}
    (same : ∀ older < pool.table.size, later older = image older) :
    expr.over others later = expr.over others image := by
  have bound := Table.lt_size_of_expr? found
  cases expr with
  | unknown other =>
    rw [sound.faithful.unknown_eq number other found, Expr.over, Expr.over, same number bound]
  | constant literal => rfl
  | apply op operands =>
    have mapped : operands.map later = operands.map image :=
      List.map_congr_left fun operand member =>
        same operand (sound.consistent.admits found operand member)
    rw [Expr.over, Expr.over, mapped]

/-- The empty pool merges into itself. -/
theorem mergesInto_empty (others : Options) (image : Nat → Nat) :
    MergesInto others image {} {} := by
  refine ⟨sound_empty, sound_empty, ?_, ?_, ?_⟩
  · intro number expr found
    simp [Table.expr?] at found
  · simp
  · simp [holdersOf]

/-- A further number goes over to one that has the expression that its own goes over to. -/
theorem MergesInto.append (merges : pool.MergesInto others image merged) (expr : Expr)
    (sound : ({ pool with table := pool.table.append expr } : Pool).Sound) {next : Pool}
    {number : Nat} (keeps : merged.Keeps (fun _ => False) next)
    (numbers : next.numbers = merged.numbers) (holders : next.holders = merged.holders)
    (soundNext : next.Sound)
    (found : next.table.expr? number =
      some (expr.over others (Function.update image pool.table.size number))) :
    pool.MergesOn others image [pool.table.size] [number]
      { pool with table := pool.table.append expr } next := by
  have old (older : Nat) (bound : older < pool.table.size) :
      Function.update image pool.table.size number older = image older :=
    Function.update_of_ne (Nat.ne_of_lt bound) _ _
  refine ⟨Function.update image pool.table.size number, old, by simp, by simp, ?_, sound,
    soundNext, ?_, ?_, ?_⟩
  · rw [List.map_singleton, Function.update_self]
  · intro other known stands
    rw [Table.expr?_append] at stands
    split at stands
    next newest =>
      rw [newest, Function.update_self, found, Option.some.inj stands]
    next =>
      rw [old other (Table.lt_size_of_expr? stands), merges.sound.over_congr stands old]
      exact keeps.expr?_eq _ _ (merges.expr?_eq other known stands)
  · intro name
    rw [numbers, merges.numbers_eq]
    cases known : pool.numbers[name]? with
    | none => rfl
    | some older =>
      rw [Option.map_some, Option.map_some,
        old older (merges.sound.consistent.number_lt name older known)]
  · intro other
    change pool.holdersOf other = (next.holdersOf _).filter fun name =>
      pool.numbers[name]? = some other
    by_cases newest : other = pool.table.size
    · -- The further number has no holder yet.
      have unheld : pool.holdersOf pool.table.size = [] :=
        List.head?_eq_none_iff.1 merges.sound.consistent.standIn?_size
      rw [newest, unheld, eq_comm, List.filter_eq_nil_iff]
      intro name _ known
      exact Nat.lt_irrefl _ (merges.sound.consistent.number_lt name _ (of_decide_eq_true known))
    · rw [Function.update_of_ne newest, merges.holdersOf_eq, holdersOf, holdersOf, holders]

/-- Fresh numbers go over to each other. -/
theorem MergesInto.fresh (merges : pool.MergesInto others image merged) :
    pool.MergesOn others image [pool.fresh.1] [merged.fresh.1] pool.fresh.2 merged.fresh.2 := by
  refine merges.append (.unknown pool.table.size) merges.sound.fresh merged.keeps_fresh rfl rfl
    merges.sound_merged.fresh ?_
  rw [Expr.over, Function.update_self, Pool.fresh, Table.fresh, Table.expr?_append, if_pos rfl]

/-- Interning an expression and what it goes over to gives numbers of which the first goes over to
the second. -/
theorem MergesInto.intern (merges : pool.MergesInto others image merged) (expr : Expr)
    (admitted : pool.table.Admits expr) (known : ∀ number, expr ≠ .unknown number)
    (mergedAdmitted : merged.table.Admits (expr.over others image)) :
    pool.MergesOn others image [(pool.intern expr).1] [(merged.intern (expr.over others image)).1]
      (pool.intern expr).2 (merged.intern (expr.over others image)).2 := by
  cases index : pool.table.find? expr with
  | some number =>
    have reflexive := Table.equals_self_of_find? index
    have found := merges.sound.consistent.table.expr?_of_find? expr number index
    rw [merges.sound.intern_eq reflexive found, merges.sound_merged.intern_eq
      (Expr.equals_self_over reflexive others image) (merges.expr?_eq _ _ found)]
    exact ⟨image, fun _ _ => rfl, Nat.le_refl _, by simpa using Table.lt_size_of_expr? found, rfl,
      merges⟩
  | none =>
    have knownOver : ∀ number, expr.over others image ≠ .unknown number := by
      cases expr with
      | unknown number => exact absurd rfl (known number)
      | constant => exact nofun
      | apply => exact nofun
    have appended : pool.intern expr =
        (pool.table.size, { pool with table := pool.table.append expr }) := by
      rw [Pool.intern, Table.intern, index]
    have sound := merges.sound.intern admitted known
    rw [appended] at sound ⊢
    refine merges.append expr sound (merged.keeps_intern _) rfl rfl
      (merges.sound_merged.intern mergedAdmitted knownOver) ?_
    -- The expression is over older numbers, which go over as they did.
    have unchanged : expr.over others (Function.update image pool.table.size
        (merged.intern (expr.over others image)).1) = expr.over others image := by
      cases expr with
      | unknown number => exact absurd rfl (known number)
      | constant => rfl
      | apply op operands =>
        rw [Expr.over, Expr.over]
        congr 2
        exact List.map_congr_left fun operand member =>
          Function.update_of_ne (Nat.ne_of_lt (admitted operand member)) _ _
    rw [unchanged]
    exact merges.sound_merged.consistent.expr?_intern _

/-- A number handed out goes over to a number handed out. -/
theorem MergesInto.image_lt (merges : pool.MergesInto others image merged) {number : Nat}
    (bound : number < pool.table.size) : image number < merged.table.size := by
  have found : pool.table.expr? number = some pool.table.exprs[number] :=
    Array.getElem?_eq_getElem bound
  exact Table.lt_size_of_expr? (merges.expr?_eq number _ found)

/-- A variable that is assigned a number and what it goes over to has numbers of which the first
goes over to the second. -/
theorem MergesInto.assign (merges : pool.MergesInto others image merged) (name : String)
    {number : Nat} (bound : number < pool.table.size) :
    (pool.assign name number).MergesInto others image (merged.assign name (image number)) := by
  refine ⟨merges.sound.assign name bound, merges.sound_merged.assign name (merges.image_lt bound),
    ?_, ?_, ?_⟩
  · simpa only [table_assign] using merges.expr?_eq
  · intro other
    rw [numbers_assign, numbers_assign, merges.numbers_eq]
    split <;> rfl
  · intro other
    rw [holdersOf_assign pool merges.sound.consistent,
      holdersOf_assign merged merges.sound_merged.consistent, merges.holdersOf_eq,
      List.filter_append, List.filter_filter, List.filter_filter]
    congr 1
    · refine List.filter_congr fun holder _ => ?_
      rw [numbers_assign]
      by_cases same : holder = name <;> simp [same, Bool.and_comm]
    · by_cases same : other = number
      · simp [same, numbers_assign]
      · have apart : ¬(number = other) := Ne.symm same
        by_cases merged : image other = image number <;> simp [same, apart, merged, numbers_assign]

/-- Reading a variable in both pools gives numbers of which the first goes over to the second. -/
theorem MergesInto.read (merges : pool.MergesInto others image merged) (name : String) :
    pool.MergesOn others image [(pool.read name).1] [(merged.read name).1] (pool.read name).2
      (merged.read name).2 := by
  have alike := merges.numbers_eq name
  cases known : pool.numbers[name]? with
  | some number =>
    rw [known, Option.map_some] at alike
    rw [read_of_known known, read_of_known alike]
    exact ⟨image, fun _ _ => rfl, Nat.le_refl _,
      by simpa using merges.sound.consistent.number_lt name number known, rfl, merges⟩
  | none =>
    rw [known, Option.map_none] at alike
    rw [read_of_new known, read_of_new alike]
    obtain ⟨later, old, grown, bounds, images, fresh⟩ := merges.fresh
    have bound : pool.table.size < pool.fresh.2.table.size := bounds _ List.mem_cons_self
    have goes : merged.table.size = later pool.table.size := (List.cons.inj images).1
    have assigned := fresh.assign name bound
    rw [← goes] at assigned
    exact ⟨later, old, by simpa using grown, by simpa using bound, images, assigned⟩

/-- Numbers that go over to numbers in two stages go over to them in one. -/
theorem MergesOn.trans {before : Pool} {numbers more images moreImages : List Nat}
    {next mergedNext : Pool}
    (first : before.MergesOn others image numbers images pool merged)
    (second : ∀ later, pool.MergesInto others later merged →
      images = numbers.map later →
      pool.MergesOn others later more moreImages next mergedNext) :
    before.MergesOn others image (numbers ++ more) (images ++ moreImages) next mergedNext := by
  obtain ⟨middle, old, grown, bounds, goes, between⟩ := first
  obtain ⟨later, kept, further, moreBounds, moreGo, merges⟩ := second middle between goes
  refine ⟨later, fun number bound => ?_, Nat.le_trans grown further, ?_, ?_, merges⟩
  · rw [kept number (Nat.lt_of_lt_of_le bound grown), old number bound]
  · intro number member
    rcases List.mem_append.1 member with early | late
    · exact Nat.lt_of_lt_of_le (bounds number early) further
    · exact moreBounds number late
  · have same : numbers.map middle = numbers.map later :=
      List.map_congr_left fun number member => (kept number (bounds number member)).symm
    rw [goes, moreGo, same, List.map_append]

/-- Reading variables in both pools gives numbers of which the first go over to the second. -/
theorem MergesInto.readAll (merges : pool.MergesInto others image merged) (names : List String) :
    pool.MergesOn others image (pool.readAll names).1 (merged.readAll names).1
      (pool.readAll names).2 (merged.readAll names).2 := by
  induction names generalizing pool merged image with
  | nil => exact ⟨image, fun _ _ => rfl, Nat.le_refl _, by simp [Pool.readAll], rfl, merges⟩
  | cons name names ih =>
    rw [readAll_cons, readAll_cons]
    exact (merges.read name).trans fun later between _ => ih between

/-- Numbering an operation over numbers and over what they go over to gives numbers of which the
first goes over to the second. -/
theorem MergesInto.numberOf (merges : pool.MergesInto others image merged)
    (looser : options.commutative = true → others.commutative = true) (op : ValueOp)
    {operands : List Nat} (bounds : ∀ operand ∈ operands, operand < pool.table.size) :
    pool.MergesOn others image [(pool.numberOf options op operands).1]
      [(merged.numberOf others op (operands.map image)).1] (pool.numberOf options op operands).2
      (merged.numberOf others op (operands.map image)).2 := by
  by_cases copy : op = .id ∧ operands.length = 1
  · obtain ⟨rfl, single⟩ := copy
    obtain ⟨operand, rfl⟩ := List.length_eq_one_iff.1 single
    exact ⟨image, fun _ _ => rfl, Nat.le_refl _, bounds, rfl, merges⟩
  · have same : Expr.apply op (others.arrange op (operands.map image)) =
        (Expr.apply op (options.arrange op operands)).over others image := by
      rw [Expr.over, Options.arrange_map_arrange looser]
    rw [pool.numberOf_eq_intern copy, merged.numberOf_eq_intern (by rwa [List.length_map]), same]
    refine merges.intern (.apply op (options.arrange op operands)) ?_ nofun ?_
    · exact fun operand member => bounds operand ((options.mem_arrange op _ _).1 member)
    · rw [← same]
      intro number member
      obtain ⟨operand, among, rfl⟩ :=
        List.mem_map.1 ((others.mem_arrange op (operands.map image) number).1 member)
      exact merges.image_lt (bounds operand among)

/-- Numbering a result over numbers and over what they go over to gives numbers of which the first
goes over to the second. -/
theorem MergesInto.resultNumber (merges : pool.MergesInto others image merged)
    (looser : options.commutative = true → others.commutative = true) {operands : List Nat}
    (bounds : ∀ operand ∈ operands, operand < pool.table.size) (instr : Instruction) :
    pool.MergesOn others image [(pool.resultNumber options operands instr).1]
      [(merged.resultNumber others (operands.map image) instr).1]
      (pool.resultNumber options operands instr).2
      (merged.resultNumber others (operands.map image) instr).2 := by
  cases instr with
  | const dest ty literal pos =>
    exact merges.intern (.constant literal) trivial nofun trivial
  | value op dest ty given pos =>
    rw [Pool.resultNumber, Pool.resultNumber]
    split
    · exact merges.numberOf looser op bounds
    · exact merges.fresh
  | effect => exact merges.fresh

/-- Numbering the result of an instruction that both pools read gives numbers of which the first
goes over to the second. -/
theorem MergesInto.resultNumber_readAll (merges : pool.MergesInto others image merged)
    (looser : options.commutative = true → others.commutative = true) (instr : Instruction) :
    let numbered :=
      (pool.readAll instr.args).2.resultNumber options (pool.readAll instr.args).1 instr
    let mergedNumbered :=
      (merged.readAll instr.args).2.resultNumber others (merged.readAll instr.args).1 instr
    pool.MergesOn others image [numbered.1] [mergedNumbered.1] numbered.2 mergedNumbered.2 := by
  obtain ⟨middle, old, grown, bounds, images, read⟩ := merges.readAll instr.args
  obtain ⟨later, kept, further, bound, goes, counted⟩ := read.resultNumber looser bounds instr
  dsimp only
  rw [images]
  exact ⟨later, fun number inside => (kept number (Nat.lt_of_lt_of_le inside grown)).trans
    (old number inside), Nat.le_trans grown further, bound, goes, counted⟩

/-- Behind an instruction that both pools go past, the one merges into the other. -/
theorem MergesInto.past (merges : pool.MergesInto others image merged)
    (looser : options.commutative = true → others.commutative = true) (instr : Instruction) :
    ∃ later, (pool.past options instr).2.MergesInto others later (merged.past others instr).2 := by
  cases result : instr.result? with
  | none =>
    rw [past_of_none result, past_of_none result]
    obtain ⟨later, -, -, -, -, read⟩ := merges.readAll instr.args
    exact ⟨later, read⟩
  | some found =>
    rw [past_of_some result, past_of_some result]
    obtain ⟨later, -, -, bound, goes, counted⟩ := merges.resultNumber_readAll looser instr
    dsimp only at bound goes counted ⊢
    rw [(List.cons.inj goes).1]
    exact ⟨later, counted.assign found.1 (bound _ List.mem_cons_self)⟩

/-- A number that goes over to another has the same literal, if any. -/
theorem MergesInto.literal?_image (merges : pool.MergesInto others image merged) {number : Nat}
    (bound : number < pool.table.size) :
    merged.table.literal? (image number) = pool.table.literal? number := by
  have found : pool.table.expr? number = some pool.table.exprs[number] :=
    Array.getElem?_eq_getElem bound
  rw [Table.literal?, Table.literal?, merges.expr?_eq number _ found, found]
  cases pool.table.exprs[number] <;> rfl

/-- The variable that has held a number longest has longest held what goes over to it. -/
theorem MergesInto.standIn?_of_merged (merges : pool.MergesInto others image merged) {name : String}
    {number : Nat} (known : pool.numbers[name]? = some number)
    (first : merged.standIn? (image number) = some name) : pool.standIn? number = some name := by
  obtain ⟨rest, listed⟩ := List.head?_eq_some_iff.1 first
  have kept : decide (pool.numbers[name]? = some number) = true := decide_eq_true known
  rw [standIn?, merges.holdersOf_eq, listed, List.filter_cons, if_pos kept, List.head?_cons]

/-- A number is held by no variable if the one that it goes over to is not. -/
theorem MergesInto.standIn?_eq_none (merges : pool.MergesInto others image merged) {number : Nat}
    (unheld : merged.standIn? (image number) = none) : pool.standIn? number = none := by
  rw [standIn?, merges.holdersOf_eq, List.head?_eq_none_iff.1 unheld]
  rfl

/-- A variable that is preferred to others is preferred to those that it is merged with. -/
theorem MergesInto.preferred_of_merged (merges : pool.MergesInto others image merged)
    {name : String} (first : merged.preferred name = name) : pool.preferred name = name := by
  cases known : pool.numbers[name]? with
  | none => rw [preferred, known, Option.bind_none, Option.getD_none]
  | some number =>
    have alike := merges.numbers_eq name
    rw [known, Option.map_some] at alike
    have standIn := (merges.sound_merged.consistent.standIn?_eq_preferred alike).1
    rw [first] at standIn
    rw [preferred, known, Option.bind_some, merges.standIn?_of_merged known standIn,
      Option.getD_some]

/-- What is written for a number that goes over to another is the instruction itself if that is
written for the other number, as long as a copy has the number of what it copies. -/
theorem MergesInto.replacement_of_merged (merges : pool.MergesInto others image merged)
    {number : Nat} (bound : number < pool.table.size) {dest : String} {ty : Ty}
    {instr : Instruction}
    (copied : ∀ holder, instr = .value .id dest ty { args := [holder] } instr.pos? →
      pool.numbers[holder]? = some number)
    (kept : merged.replacement (image number) dest ty instr = instr) :
    pool.replacement number dest ty instr = instr := by
  rw [replacement, merges.literal?_image bound] at kept
  rw [replacement]
  cases literal : pool.table.literal? number with
  | some literal =>
    rw [literal] at kept
    exact kept
  | none =>
    rw [literal] at kept
    cases held : merged.standIn? (image number) with
    | some holder =>
      rw [held] at kept
      rw [merges.standIn?_of_merged (copied holder kept.symm) held]
      exact kept
    | none =>
      rw [held] at kept
      rw [merges.standIn?_eq_none held]
      rw [Instruction.mapArgs_eq_self_iff] at kept ⊢
      exact fun name member => merges.preferred_of_merged (kept name member)

/-- An instruction that is left as it is going past it in the second pool is left as it is in the
first. -/
theorem MergesInto.past_of_merged (merges : pool.MergesInto options image merged)
    {instr : Instruction} {last : Pool} (kept : merged.past options instr = (instr, last)) :
    ∃ next later, pool.past options instr = (instr, next) ∧
      next.MergesInto options later last := by
  obtain ⟨later, behind⟩ := merges.past id instr
  rw [kept] at behind
  refine ⟨(pool.past options instr).2, later, Prod.ext ?_ rfl, behind⟩
  cases result : instr.result? with
  | none =>
    rw [past_of_none result, Prod.mk.injEq] at kept
    rw [past_of_none result]
    obtain ⟨middle, -, -, -, -, read⟩ := merges.readAll instr.args
    have kept := kept.1
    dsimp only
    rw [Instruction.mapArgs_eq_self_iff] at kept ⊢
    exact fun name member => read.preferred_of_merged (kept name member)
  | some found =>
    obtain ⟨dest, ty⟩ := found
    rw [past_of_some result, Prod.mk.injEq] at kept
    rw [past_of_some result]
    obtain ⟨middle, -, -, bound, goes, counted⟩ := merges.resultNumber_readAll id instr
    dsimp only at bound goes counted ⊢
    have kept := kept.1
    rw [(List.cons.inj goes).1] at kept
    refine counted.replacement_of_merged (bound _ List.mem_cons_self) (fun holder copy => ?_) kept
    -- The result of a copy has the number of the one operand.
    have known := (merges.sound.readsOn_read holder).2.2
    rw [copy]
    exact known

end Pool

end Midend
