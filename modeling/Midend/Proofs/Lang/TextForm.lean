import Midend.Lang.Text
import Midend.Proofs.Json.Numerals
import Midend.Proofs.Lang.Delimiting

/-!
# The text form identifies a program

Programs whose names are identifiers, and whose literals are shown by their types, have one text
only if they differ in nothing but positions. Every part of a text tells where it ends: a name where
no letter of a name follows, an operation and a constant at the semicolon, a type, a line and a
function by themselves.
-/

namespace Midend.Lang

/-- The instruction without its position. -/
def Instruction.unplaced : Instruction → Instruction
  | const dest ty literal _ => const dest ty literal none
  | value op dest ty operands _ => value op dest ty operands none
  | effect op operands _ => effect op operands none

/-- The entry without its position. -/
def Entry.unplaced : Entry → Entry
  | label name _ => label name none
  | instr instruction => instr instruction.unplaced

/-- The function without positions. -/
def Function.unplaced (function : Function) : Function :=
  { function with body := function.body.map Entry.unplaced, pos := none }

/-- The program without positions. -/
def Program.unplaced (program : Program) : Program :=
  { functions := program.functions.map Function.unplaced }

/-- The text of an entry does not show its position. -/
theorem Entry.line_unplaced (entry : Entry) : entry.unplaced.line = entry.line := by
  cases entry with
  | label => rfl
  | instr instruction => cases instruction <;> rfl

/-- The text of a function does not show positions. -/
theorem Function.text_unplaced (function : Function) : function.unplaced.text = function.text := by
  have lines : function.unplaced.body.map Entry.line = function.body.map Entry.line := by
    rw [Function.unplaced, List.map_map]
    exact List.map_congr_left fun entry _ => entry.line_unplaced
  rw [Function.text, Function.text, lines, Function.unplaced]

/-- The text of a program does not show positions. -/
theorem Program.text_unplaced (program : Program) : program.unplaced.text = program.text := by
  rw [Program.text, Program.text, Program.unplaced, List.map_map]
  exact congrArg _ (List.map_congr_left fun function _ => function.text_unplaced)

/-- A character that an identifier may begin with: a letter, an underscore or a percent sign. Every
character beyond ASCII counts as a letter. -/
def startsName (character : Char) : Bool :=
  character.isAlpha || character == '_' || character == '%' || 127 < character.toNat

/-- A character that an identifier may go on with. -/
def continuesName (character : Char) : Bool :=
  startsName character || character.isDigit || character == '.'

/-- Whether a name is an identifier. -/
def isIdentifier (name : String) : Bool :=
  match name.toList with
  | [] => false
  | first :: others => startsName first && others.all continuesName

/-- An identifier begins as one. -/
theorem exists_cons_of_isIdentifier {name : String} (identifier : isIdentifier name = true) :
    ∃ first others, name.toList = first :: others ∧ startsName first = true := by
  unfold isIdentifier at identifier
  split at identifier
  · cases identifier
  · next first others letters =>
    rw [Bool.and_eq_true] at identifier
    exact ⟨first, others, letters, identifier.1⟩

/-- Every character of an identifier is one that may go on with it. -/
theorem continuesName_of_mem {name : String} (identifier : isIdentifier name = true) :
    ∀ character ∈ name.toList, continuesName character = true := by
  unfold isIdentifier at identifier
  split at identifier
  · cases identifier
  · next first others letters =>
    rw [Bool.and_eq_true, List.all_eq_true] at identifier
    rw [letters, List.forall_mem_cons]
    refine ⟨?_, identifier.2⟩
    simp [continuesName, identifier.1]

/-- An identifier ends where no character follows that it may go on with. -/
theorem readable_name :
    Readable String.toList id (isIdentifier · = true) (continuesName · = false) := by
  intro one other known known' rest rest' stops stops' same
  obtain ⟨letters, same⟩ := append_inj_of_forall (continuesName_of_mem known)
    (continuesName_of_mem known') (fun first heads => by simp [stops first heads])
    (fun first heads => by simp [stops' first heads]) same
  exact ⟨String.toList_injective letters, same⟩

/-- An identifier ends at a colon. -/
theorem name_colon_inj {name name' : String} (identifier : isIdentifier name = true)
    (identifier' : isIdentifier name' = true) {rest rest' : List Char}
    (same : name.toList ++ ':' :: rest = name'.toList ++ ':' :: rest') :
    name = name' ∧ rest = rest' := by
  obtain ⟨names, same⟩ := readable_name identifier identifier' (by rintro _ ⟨⟩; decide)
    (by rintro _ ⟨⟩; decide) same
  exact ⟨names, (List.cons_eq_cons.1 same).2⟩

/-- The names of operations are identifiers. -/
theorem ValueOp.isIdentifier_name (op : ValueOp) : isIdentifier op.name = true := by
  cases op <;> decide

/-- The names of operations are identifiers. -/
theorem EffectOp.isIdentifier_name (op : EffectOp) : isIdentifier op.name = true := by
  cases op <;> decide

/-- A value operation is known by its name. -/
theorem ValueOp.name_injective {op op' : ValueOp} (same : op.name = op'.name) : op = op' := by
  have known := ofName?_name op
  rw [same, ofName?_name] at known
  exact (Option.some.inj known).symm

/-- An effect operation is known by its name. -/
theorem EffectOp.name_injective {op op' : EffectOp} (same : op.name = op'.name) : op = op' := by
  have known := ofName?_name op
  rw [same, ofName?_name] at known
  exact (Option.some.inj known).symm

/-- No value operation is called as constants are. -/
theorem ValueOp.name_ne_const (op : ValueOp) : op.name ≠ "const" := by
  cases op <;> decide

/-- A type delimits itself. -/
theorem selfDelimiting_ty : SelfDelimiting (fun ty : Ty => ty.text.toList) id fun _ => True := by
  intro one other _ _ rest rest' same
  induction one generalizing other rest rest' with
  | ptr target ih =>
    cases other with
    | ptr target' =>
      have inside : target.text.toList ++ '>' :: rest = target'.text.toList ++ '>' :: rest' := by
        simpa [Ty.text] using same
      obtain ⟨targets, same⟩ := ih inside
      exact ⟨congrArg Ty.ptr targets, (List.cons_eq_cons.1 same).2⟩
    | _ => simp [Ty.text] at same
  | _ => cases other <;> simp_all [Ty.text]

/-- A name with a type behind it is told from what follows. -/
theorem typed_append_inj {name name' : String} (identifier : isIdentifier name = true)
    (identifier' : isIdentifier name' = true) {ty ty' : Ty} {rest rest' : List Char}
    (same : name.toList ++ ':' :: ' ' :: (ty.text.toList ++ rest) =
      name'.toList ++ ':' :: ' ' :: (ty'.text.toList ++ rest')) :
    name = name' ∧ ty = ty' ∧ rest = rest' := by
  obtain ⟨names, same⟩ := name_colon_inj identifier identifier' same
  exact ⟨names, selfDelimiting_ty trivial trivial (List.cons_eq_cons.1 same).2⟩

/-- The control characters with a letter of their own, and the letters. -/
def controlLetters : List (Char × Char) :=
  [('\x00', '0'), ('\x07', 'a'), ('\x08', 'b'), ('\t', 't'), ('\n', 'n'), ('\x0b', 'v'),
    ('\x0c', 'f'), ('\r', 'r')]

/-- Between the quotes stands a character itself, or a backslash and the letter for it. -/
theorem cases_of_charText (character : Char) :
    (charText character).toList = ['\'', character, '\''] ∨
      ∃ letter, (character, letter) ∈ controlLetters ∧
        (charText character).toList = ['\'', '\\', letter, '\''] := by
  unfold charText
  split_ifs with zero bell backspace tab newline vertical feed carriage
  · exact .inr ⟨'0', by simp [controlLetters, zero], rfl⟩
  · exact .inr ⟨'a', by simp [controlLetters, bell], rfl⟩
  · exact .inr ⟨'b', by simp [controlLetters, backspace], rfl⟩
  · exact .inr ⟨'t', by simp [controlLetters, tab], rfl⟩
  · exact .inr ⟨'n', by simp [controlLetters, newline], rfl⟩
  · exact .inr ⟨'v', by simp [controlLetters, vertical], rfl⟩
  · exact .inr ⟨'f', by simp [controlLetters, feed], rfl⟩
  · exact .inr ⟨'r', by simp [controlLetters, carriage], rfl⟩
  · exact .inl (by simp)

/-- A character between quotes delimits itself. -/
theorem selfDelimiting_charText :
    SelfDelimiting (fun character => (charText character).toList) id fun _ => True := by
  have apart : ∀ one ∈ controlLetters, one.2 ≠ '\'' ∧
      ∀ other ∈ controlLetters, one.2 = other.2 → one.1 = other.1 := by decide
  intro one other _ _ rest rest' same
  rcases cases_of_charText one with plain | ⟨letter, listed, escaped⟩ <;>
    rcases cases_of_charText other with plain' | ⟨letter', listed', escaped'⟩
  · simpa [plain, plain'] using same
  · -- A backslash between quotes is followed by the quote, an escape by its letter.
    have closes : one = '\\' ∧ '\'' = letter' ∧ rest = '\'' :: rest' := by
      simpa [plain, escaped'] using same
    exact absurd closes.2.1.symm (apart _ listed').1
  · have closes : '\\' = other ∧ letter = '\'' ∧ '\'' :: rest = rest' := by
      simpa [escaped, plain'] using same
    exact absurd closes.2.1 (apart _ listed).1
  · have letters : letter = letter' ∧ rest = rest' := by simpa [escaped, escaped'] using same
    exact ⟨(apart _ listed).2 _ listed' letters.1, letters.2⟩

/-- A literal that is shown by a type: no float, and a character at its own type alone, where it
stands between quotes. -/
def Literal.ShownAt (ty : Ty) : Literal → Prop
  | int _ | bool _ => True
  | float _ => False
  | char _ => ty = .char

instance (ty : Ty) : DecidablePred (Literal.ShownAt ty)
  | .int _ | .bool _ => isTrue trivial
  | .float _ => isFalse id
  | .char _ => inferInstanceAs (Decidable (ty = .char))

/-- An integer ends where no number goes on. -/
theorem readable_int :
    Readable (fun value : Int64 => (toString value.toInt).toList) id (fun _ => True) fun next =>
      Json.isDigit next = false ∧ next ≠ '.' ∧ next ≠ 'e' ∧ next ≠ 'E' := by
  have low (value : Int64) : -2 ^ 63 ≤ value.toInt := value.minValue_le_toInt
  have high (value : Int64) : value.toInt < 2 ^ 64 := Int.lt_trans value.toInt_lt (by decide)
  intro one other _ _ rest rest' stops stops' same
  have read := Json.readNumber_written (low one) (high one) stops
  rw [same, Json.readNumber_written (low other) (high other) stops'] at read
  injection read with read
  injection read with values rests
  injection values with values
  exact ⟨(Int64.toInt_inj.1 values).symm, rests.symm⟩

/-- Whether literals like this one are written beginning with a character. -/
def Literal.beginsWith (first : Char) : Literal → Bool
  | int _ => first == '-' || Json.isDigit first
  | bool true => first == 't'
  | bool false => first == 'f'
  | float _ => false
  | char _ => first == '\''

/-- A literal that is shown begins as literals like it do. -/
theorem Literal.ShownAt.beginsWith {ty : Ty} {literal : Literal} (shown : literal.ShownAt ty) :
    ∃ first others, (literal.text ty).toList = first :: others ∧
      literal.beginsWith first = true := by
  cases literal with
  | int value =>
    obtain ⟨first, others, written, kind⟩ := Json.exists_cons_toString value.toInt
    exact ⟨first, others, written, by simpa [Literal.beginsWith] using kind⟩
  | bool value =>
    cases value
    · exact ⟨'f', ['a', 'l', 's', 'e'], String.toList_ofList, rfl⟩
    · exact ⟨'t', ['r', 'u', 'e'], String.toList_ofList, rfl⟩
  | float => cases shown
  | char value =>
    obtain rfl : ty = .char := shown
    rcases cases_of_charText value with plain | ⟨letter, -, escaped⟩
    · exact ⟨_, _, plain, rfl⟩
    · exact ⟨_, _, escaped, rfl⟩

/-- A literal that is shown ends at the semicolon. -/
theorem literal_append_inj {ty : Ty} {one other : Literal} (shown : one.ShownAt ty)
    (shown' : other.ShownAt ty) {rest rest' : List Char}
    (same : (one.text ty).toList ++ ';' :: rest = (other.text ty).toList ++ ';' :: rest') :
    one = other ∧ rest = rest' := by
  obtain ⟨first, others, written, begins⟩ := shown.beginsWith
  obtain ⟨first', others', written', begins'⟩ := shown'.beginsWith
  obtain rfl : first = first' := by
    rw [written, written'] at same
    exact (List.cons_eq_cons.1 same).1
  cases one with
  | int value =>
    cases other with
    | int value' =>
      obtain ⟨values, same⟩ := readable_int trivial trivial (by simp [Json.isDigit])
        (by simp [Json.isDigit]) same
      exact ⟨congrArg Literal.int values, (List.cons_eq_cons.1 same).2⟩
    | bool value' => cases value' <;> simp_all [Literal.beginsWith, Json.isDigit]
    | _ => simp_all [Literal.beginsWith, Json.isDigit]
  | bool value =>
    cases other with
    | bool value' =>
      cases value <;> cases value' <;> simp_all [Literal.beginsWith]
    | _ => cases value <;> simp_all [Literal.beginsWith, Json.isDigit]
  | float => cases shown
  | char value =>
    obtain rfl : ty = .char := shown
    cases other with
    | char value' =>
      obtain ⟨values, same⟩ := selfDelimiting_charText trivial trivial same
      exact ⟨congrArg Literal.char values, (List.cons_eq_cons.1 same).2⟩
    | bool value' => cases value' <;> simp_all [Literal.beginsWith]
    | _ => simp_all [Literal.beginsWith, Json.isDigit]

/-- A name behind a mark, as operations mention it. -/
structure Mention where
  mark : String
  name : String

/-- The letters of a mention. -/
def Mention.letters (mention : Mention) : List Char :=
  mention.mark.toList ++ mention.name.toList

/-- The marks of functions, variables and labels. -/
def marks : List String := [" @", " ", " ."]

/-- A mention by one of the marks, of an identifier. -/
structure Mention.Legible (mention : Mention) : Prop where
  mark : mention.mark ∈ marks
  name : isIdentifier mention.name = true

/-- A mention begins with a blank. -/
theorem opensWith_mention : OpensWith Mention.letters Mention.Legible (· = ' ') := by
  have blank : ∀ mark ∈ marks, mark.toList.head? = some ' ' := by decide
  intro mention legible
  obtain ⟨others, letters⟩ := List.head?_eq_some_iff.1 (blank _ legible.mark)
  exact ⟨' ', _, by rw [Mention.letters, letters, List.cons_append], rfl⟩

/-- What is mentioned is told by the mark, and the name ends where it does not go on. -/
theorem readable_mention : Readable Mention.letters id Mention.Legible
    (continuesName · = false) := by
  have unnamed : ∀ mark ∈ marks, mark.toList.all (!startsName ·) = true := by decide
  have named {mention : Mention} (legible : mention.Legible) {rest : List Char} :
      ∀ first ∈ (mention.name.toList ++ rest).head?, ¬(!startsName first) = true := by
    obtain ⟨first, others, letters, starts⟩ := exists_cons_of_isIdentifier legible.name
    rw [letters]
    rintro _ ⟨⟩
    simp [starts]
  rintro ⟨mark, name⟩ ⟨mark', name'⟩ legible legible' rest rest' stops stops' same
  rw [Mention.letters, Mention.letters, List.append_assoc, List.append_assoc] at same
  obtain ⟨sameMark, same⟩ := append_inj_of_forall
    (List.all_eq_true.1 (unnamed _ legible.mark)) (List.all_eq_true.1 (unnamed _ legible'.mark))
    (named legible) (named legible') same
  obtain ⟨sameName, same⟩ := readable_name legible.name legible'.name stops stops' same
  exact ⟨congrArg₂ Mention.mk (String.toList_injective sameMark) sameName, same⟩

/-- What operands mention, in the order of the text. -/
def Operands.mentions (operands : Operands) : List Mention :=
  operands.funcs.map (.mk " @") ++ operands.args.map (.mk " ") ++ operands.labels.map (.mk " .")

/-- Operands are written as what they mention. -/
theorem Operands.toList_text (operands : Operands) :
    operands.text.toList = operands.mentions.flatMap Mention.letters := by
  have names (mark : String) (names : List String) :
      (marked mark names).toList = (names.map (.mk mark)).flatMap Mention.letters := by
    rw [marked, String.toList_join, List.flatMap_map, List.flatMap_map]
    simp only [Mention.letters, String.toList_append]
  rw [text, mentions, List.flatMap_append, List.flatMap_append, String.toList_append,
    String.toList_append, names, names, names]

/-- Operands are known by what they mention. -/
theorem Operands.mentions_injective {operands operands' : Operands}
    (same : operands.mentions = operands'.mentions) : operands = operands' := by
  have marked (mark : String) : (operands.mentions.filter (·.mark == mark)).map Mention.name =
      (operands'.mentions.filter (·.mark == mark)).map Mention.name := by rw [same]
  have funcs : operands.funcs = operands'.funcs := by
    simpa [mentions, List.filter_map, Function.comp_def] using marked " @"
  have args : operands.args = operands'.args := by
    simpa [mentions, List.filter_map, Function.comp_def] using marked " "
  have labels : operands.labels = operands'.labels := by
    simpa [mentions, List.filter_map, Function.comp_def] using marked " ."
  cases operands
  cases operands'
  simp_all

/-- Operands whose names are identifiers. -/
structure Operands.Legible (operands : Operands) : Prop where
  args : ∀ name ∈ operands.args, isIdentifier name = true
  funcs : ∀ name ∈ operands.funcs, isIdentifier name = true
  labels : ∀ name ∈ operands.labels, isIdentifier name = true

instance : DecidablePred Operands.Legible := fun operands =>
  decidable_of_iff ((∀ name ∈ operands.args, isIdentifier name = true) ∧
      (∀ name ∈ operands.funcs, isIdentifier name = true) ∧
      ∀ name ∈ operands.labels, isIdentifier name = true)
    ⟨fun ⟨args, funcs, labels⟩ => ⟨args, funcs, labels⟩,
      fun ⟨args, funcs, labels⟩ => ⟨args, funcs, labels⟩⟩

/-- Every name that is mentioned is an identifier. -/
theorem Operands.Legible.mentions {operands : Operands} (legible : operands.Legible) :
    ∀ mention ∈ operands.mentions, mention.Legible := by
  simp only [Operands.mentions, List.forall_mem_append, List.forall_mem_map]
  refine ⟨⟨fun name named => ?_, fun name named => ?_⟩, fun name named => ?_⟩
  · exact ⟨by simp [marks], legible.funcs name named⟩
  · exact ⟨by simp [marks], legible.args name named⟩
  · exact ⟨by simp [marks], legible.labels name named⟩

/-- Operands begin with a blank, and if there are none, the semicolon stands there. -/
theorem Operands.Legible.head?_text {operands : Operands} (legible : operands.Legible)
    (rest : List Char) :
    ∀ first ∈ (operands.text.toList ++ ';' :: rest).head?, first = ' ' ∨ first = ';' := by
  rw [operands.toList_text]
  exact opensWith_mention.flatMap (fun _ blank => .inl blank) legible.mentions
    (by rintro _ ⟨⟩; exact .inr rfl)

/-- No name goes on with operands or with the semicolon behind them. -/
theorem Operands.Legible.ends {operands : Operands} (legible : operands.Legible)
    {rest : List Char} :
    ∀ first ∈ (operands.text.toList ++ ';' :: rest).head?, continuesName first = false := by
  intro first heads
  rcases legible.head?_text rest first heads with rfl | rfl <;> decide

/-- Operands end at the semicolon. -/
theorem operands_append_inj {operands operands' : Operands} (legible : operands.Legible)
    (legible' : operands'.Legible) {rest rest' : List Char}
    (same : operands.text.toList ++ ';' :: rest = operands'.text.toList ++ ';' :: rest') :
    operands = operands' ∧ rest = rest' := by
  rw [Operands.toList_text, Operands.toList_text] at same
  obtain ⟨mentions, same⟩ := readable_mention.flatMap opensWith_mention (by rintro _ rfl; decide)
    legible.mentions legible'.mentions (by rintro _ ⟨⟩; decide) (by rintro _ ⟨⟩; decide) same
  rw [List.map_id, List.map_id] at mentions
  exact ⟨Operands.mentions_injective mentions, (List.cons_eq_cons.1 same).2⟩

/-- An operation ends at the semicolon. -/
theorem operation_append_inj {name name' : String} (identifier : isIdentifier name = true)
    (identifier' : isIdentifier name' = true) {operands operands' : Operands}
    (legible : operands.Legible) (legible' : operands'.Legible) {rest rest' : List Char}
    (same : name.toList ++ (operands.text.toList ++ ';' :: rest) =
      name'.toList ++ (operands'.text.toList ++ ';' :: rest')) :
    name = name' ∧ operands = operands' ∧ rest = rest' := by
  obtain ⟨names, same⟩ := readable_name identifier identifier' legible.ends legible'.ends same
  exact ⟨names, operands_append_inj legible legible' same⟩

namespace Instruction

/-- An instruction whose names are identifiers and whose literal is shown by its type. -/
def Legible : Instruction → Prop
  | const dest ty literal _ => isIdentifier dest = true ∧ literal.ShownAt ty
  | value _ dest _ operands _ => isIdentifier dest = true ∧ operands.Legible
  | effect _ operands _ => operands.Legible

instance : DecidablePred Legible
  | const _ _ _ _ => inferInstanceAs (Decidable (_ ∧ _))
  | value _ _ _ _ _ => inferInstanceAs (Decidable (_ ∧ _))
  | effect _ operands _ => inferInstanceAs (Decidable operands.Legible)

variable {dest : String} {ty : Ty} {operands : Operands} {pos pos' : Option Position}
  {rest rest' : List Char}

/-- The letters of a constant in front of a rest. -/
theorem toList_const {literal : Literal} : (const dest ty literal pos).text.toList ++ rest =
    dest.toList ++ ':' :: ' ' :: (ty.text.toList ++ (" = ".toList ++ ("const".toList ++
      ' ' :: ((literal.text ty).toList ++ ';' :: rest)))) := by
  simp [text]

/-- The letters of a value operation in front of a rest. -/
theorem toList_value {op : ValueOp} : (value op dest ty operands pos).text.toList ++ rest =
    dest.toList ++ ':' :: ' ' :: (ty.text.toList ++ (" = ".toList ++ (op.name.toList ++
      (operands.text.toList ++ ';' :: rest)))) := by
  simp [text]

/-- The letters of an effect operation in front of a rest. -/
theorem toList_effect {op : EffectOp} : (effect op operands pos).text.toList ++ rest =
    op.name.toList ++ (operands.text.toList ++ ';' :: rest) := by
  simp [text]

/-- No constant is written like a value operation. -/
theorem const_ne_value {literal : Literal} {op : ValueOp} {dest' : String} {ty' : Ty}
    (legible : (const dest ty literal pos).Legible)
    (legible' : (value op dest' ty' operands pos').Legible) :
    (const dest ty literal pos).text.toList ++ rest ≠
      (value op dest' ty' operands pos').text.toList ++ rest' := by
  intro same
  rw [toList_const, toList_value] at same
  obtain ⟨-, -, same⟩ := typed_append_inj legible.1 legible'.1 same
  obtain ⟨names, -⟩ := readable_name (by decide) op.isIdentifier_name (by rintro _ ⟨⟩; decide)
    legible'.2.ends (List.append_cancel_left same)
  exact op.name_ne_const names.symm

/-- Nothing with a destination is written like an effect operation. -/
theorem typed_ne_effect {op : EffectOp} (identifier : isIdentifier dest = true)
    (legible : operands.Legible) :
    dest.toList ++ ':' :: rest ≠ op.name.toList ++ (operands.text.toList ++ ';' :: rest') := by
  intro same
  obtain ⟨-, same⟩ := readable_name identifier op.isIdentifier_name (by rintro _ ⟨⟩; decide)
    legible.ends same
  have heads := legible.head?_text rest'
  rw [← same] at heads
  exact absurd (heads ':' rfl) (by decide)

/-- An instruction delimits itself. -/
theorem selfDelimiting :
    SelfDelimiting (fun instr : Instruction => instr.text.toList) unplaced Legible := by
  intro one other legible legible' rest rest' same
  cases one with
  | const dest ty literal pos =>
    cases other with
    | const dest' ty' literal' pos' =>
      rw [toList_const, toList_const] at same
      obtain ⟨rfl, rfl, behind⟩ := typed_append_inj legible.1 legible'.1 same
      obtain ⟨rfl, rests⟩ := literal_append_inj legible.2 legible'.2
        (List.cons_eq_cons.1 (List.append_cancel_left (List.append_cancel_left behind))).2
      exact ⟨rfl, rests⟩
    | value => exact absurd same (const_ne_value legible legible')
    | effect =>
      rw [toList_const, toList_effect] at same
      exact absurd same (typed_ne_effect legible.1 legible')
  | value op dest ty operands pos =>
    cases other with
    | const => exact absurd same.symm (const_ne_value legible' legible)
    | value op' dest' ty' operands' pos' =>
      rw [toList_value, toList_value] at same
      obtain ⟨rfl, rfl, behind⟩ := typed_append_inj legible.1 legible'.1 same
      obtain ⟨names, rfl, rests⟩ := operation_append_inj op.isIdentifier_name
        op'.isIdentifier_name legible.2 legible'.2 (List.append_cancel_left behind)
      obtain rfl := ValueOp.name_injective names
      exact ⟨rfl, rests⟩
    | effect =>
      rw [toList_value, toList_effect] at same
      exact absurd same (typed_ne_effect legible.1 legible')
  | effect op operands pos =>
    cases other with
    | const =>
      rw [toList_effect, toList_const] at same
      exact absurd same.symm (typed_ne_effect legible'.1 legible)
    | value =>
      rw [toList_effect, toList_value] at same
      exact absurd same.symm (typed_ne_effect legible'.1 legible)
    | effect op' operands' pos' =>
      rw [toList_effect, toList_effect] at same
      obtain ⟨names, rfl, rests⟩ := operation_append_inj op.isIdentifier_name
        op'.isIdentifier_name legible legible' same
      obtain rfl := EffectOp.name_injective names
      exact ⟨rfl, rests⟩

end Instruction

namespace Entry

/-- An entry whose names are identifiers and whose literal is shown by its type. -/
def Legible : Entry → Prop
  | label name _ => isIdentifier name = true
  | instr instruction => instruction.Legible

instance : DecidablePred Legible
  | label name _ => inferInstanceAs (Decidable (isIdentifier name = true))
  | instr instruction => inferInstanceAs (Decidable instruction.Legible)

/-- The line of an entry begins at the margin with the mark of a label, or with a blank. -/
theorem opensWith_line : OpensWith (fun entry : Entry => entry.line.toList) Legible
    fun first => first = '.' ∨ first = ' ' := by
  intro entry _
  cases entry with
  | label name => exact ⟨'.', name.toList ++ [':', '\n'], by simp [line, text], .inl rfl⟩
  | instr instruction =>
    exact ⟨' ', ' ' :: instruction.text.toList ++ ['\n'], by simp [line, text], .inr rfl⟩

/-- The line of an entry delimits itself. -/
theorem selfDelimiting_line :
    SelfDelimiting (fun entry : Entry => entry.line.toList) unplaced Legible := by
  intro one other legible legible' rest rest' same
  cases one with
  | label name pos =>
    cases other with
    | label name' pos' =>
      have inside : name.toList ++ ':' :: '\n' :: rest = name'.toList ++ ':' :: '\n' :: rest' := by
        simpa [line, text] using same
      obtain ⟨rfl, rests⟩ := name_colon_inj legible legible' inside
      exact ⟨rfl, (List.cons_eq_cons.1 rests).2⟩
    | instr => simp [line, text] at same
  | instr instruction =>
    cases other with
    | label => simp [line, text] at same
    | instr instruction' =>
      have inside : instruction.text.toList ++ '\n' :: rest =
          instruction'.text.toList ++ '\n' :: rest' := by
        simpa [line, text] using same
      obtain ⟨instructions, rests⟩ := Instruction.selfDelimiting legible legible' inside
      exact ⟨congrArg Entry.instr instructions, (List.cons_eq_cons.1 rests).2⟩

end Entry

/-- The letters of a parameter. -/
def Parameter.letters (param : Parameter) : List Char :=
  (param.name ++ ": " ++ param.ty.text).toList

/-- A parameter delimits itself. -/
theorem selfDelimiting_param :
    SelfDelimiting Parameter.letters id (isIdentifier ·.name = true) := by
  rintro ⟨name, ty⟩ ⟨name', ty'⟩ identifier identifier' rest rest' same
  have inside : name.toList ++ ':' :: ' ' :: (ty.text.toList ++ rest) =
      name'.toList ++ ':' :: ' ' :: (ty'.text.toList ++ rest') := by
    simpa [Parameter.letters] using same
  obtain ⟨rfl, rfl, rests⟩ := typed_append_inj identifier identifier' inside
  exact ⟨rfl, rests⟩

/-- A parameter begins with its name. -/
theorem opensWith_param : OpensWith Parameter.letters (isIdentifier ·.name = true)
    fun first => first = ',' ∨ startsName first = true := by
  intro param identifier
  obtain ⟨first, others, letters, starts⟩ := exists_cons_of_isIdentifier identifier
  exact ⟨first, others ++ (": " ++ param.ty.text).toList, by simp [Parameter.letters, letters],
    .inr starts⟩

/-- Parameters are told from what does not begin with a parenthesis. -/
theorem readable_params : Readable (fun params => (paramsText params).toList) id
    (∀ param ∈ ·, isIdentifier param.name = true) (· ≠ '(') := by
  have letters {param : Parameter} {params : List Parameter} {rest : List Char} :
      (paramsText (param :: params)).toList ++ rest =
        '(' :: ([',', ' '].intercalate ((param :: params).map Parameter.letters) ++
          ')' :: rest) := by
    have filled : (param :: params).isEmpty = false := rfl
    rw [paramsText, filled, if_neg Bool.false_ne_true, String.toList_append, String.toList_append,
      String.toList_intercalate, List.map_map]
    simp only [List.append_assoc]
    rfl
  have apart {param : Parameter} {params : List Parameter} {rest rest' : List Char}
      (stops : ∀ first ∈ rest.head?, first ≠ '(') :
      rest ≠ (paramsText (param :: params)).toList ++ rest' := by
    rintro rfl
    rw [letters] at stops
    exact stops '(' rfl rfl
  intro params params' known known' rest rest' stops stops' same
  cases params with
  | nil =>
    cases params' with
    | nil => exact ⟨rfl, same⟩
    | cons => exact absurd same (apart stops)
  | cons param params =>
    cases params' with
    | nil => exact absurd same.symm (apart stops')
    | cons param' params' =>
      rw [letters, letters] at same
      obtain ⟨all, rests⟩ := selfDelimiting_param.intercalate opensWith_param (.inl rfl) [' ']
        known known' (by rintro _ ⟨⟩; decide) (by rintro _ ⟨⟩; decide)
        (List.cons_eq_cons.1 same).2
      rw [List.map_id, List.map_id] at all
      exact ⟨all, (List.cons_eq_cons.1 rests).2⟩

/-- A return type is told from what does not begin with a colon. -/
theorem readable_returns : Readable (fun returns => (returnsText returns).toList) id
    (fun _ => True) (· ≠ ':') := by
  have letters {ty : Ty} {rest : List Char} :
      (returnsText (some ty)).toList ++ rest = ':' :: ' ' :: (ty.text.toList ++ rest) := by
    simp [returnsText]
  have apart {ty : Ty} {rest rest' : List Char} (stops : ∀ first ∈ rest.head?, first ≠ ':') :
      rest ≠ (returnsText (some ty)).toList ++ rest' := by
    rintro rfl
    rw [letters] at stops
    exact stops ':' rfl rfl
  intro one other _ _ rest rest' stops stops' same
  cases one with
  | none =>
    cases other with
    | none => exact ⟨rfl, same⟩
    | some => exact absurd same (apart stops)
  | some ty =>
    cases other with
    | none => exact absurd same.symm (apart stops')
    | some ty' =>
      have inside : ty.text.toList ++ rest = ty'.text.toList ++ rest' := by
        simpa [returnsText] using same
      obtain ⟨types, rests⟩ := selfDelimiting_ty trivial trivial inside
      exact ⟨congrArg some types, rests⟩

namespace Function

/-- A function whose names are identifiers and whose literals are shown by their types. -/
structure Legible (function : Function) : Prop where
  name : isIdentifier function.name = true
  params : ∀ param ∈ function.params, isIdentifier param.name = true
  body : ∀ entry ∈ function.body, entry.Legible

instance : DecidablePred Legible := fun function =>
  decidable_of_iff (isIdentifier function.name = true ∧
      (∀ param ∈ function.params, isIdentifier param.name = true) ∧
      ∀ entry ∈ function.body, entry.Legible)
    ⟨fun ⟨name, params, body⟩ => ⟨name, params, body⟩,
      fun ⟨name, params, body⟩ => ⟨name, params, body⟩⟩

/-- The letters of a function in front of a rest. -/
theorem toList_text (function : Function) (rest : List Char) : function.text.toList ++ rest =
    '@' :: (function.name.toList ++ ((paramsText function.params).toList ++
      ((returnsText function.returns).toList ++ ' ' :: '\x7b' :: '\n' ::
        (function.body.flatMap (fun entry => entry.line.toList) ++ '\x7d' :: rest)))) := by
  simp [text, String.toList_join, List.flatMap_map]

/-- Behind the parameters stands a return type or the brace. -/
theorem head?_returns (returns : Option Ty) (rest : List Char) :
    ∀ first ∈ ((returnsText returns).toList ++ ' ' :: rest).head?, first = ':' ∨ first = ' ' := by
  cases returns <;> simp [returnsText]

/-- Behind the name of a function stand parameters, a return type or the brace. -/
theorem head?_params (params : List Parameter) (returns : Option Ty) (rest : List Char) :
    ∀ first ∈ ((paramsText params).toList ++
      ((returnsText returns).toList ++ ' ' :: rest)).head?,
      first = '(' ∨ first = ':' ∨ first = ' ' := by
  cases params with
  | nil => exact fun first heads => .inr (head?_returns returns rest first heads)
  | cons param params => simp [paramsText]

/-- A function delimits itself. -/
theorem selfDelimiting :
    SelfDelimiting (fun function : Function => function.text.toList) unplaced Legible := by
  intro one other legible legible' rest rest' same
  have endsName {params : List Parameter} {returns : Option Ty} {rest : List Char} :
      ∀ first ∈ ((paramsText params).toList ++
        ((returnsText returns).toList ++ ' ' :: rest)).head?, continuesName first = false := by
    intro first heads
    rcases head?_params params returns rest first heads with rfl | rfl | rfl <;> decide
  have endsParams {returns : Option Ty} {rest : List Char} :
      ∀ first ∈ ((returnsText returns).toList ++ ' ' :: rest).head?, first ≠ '(' := by
    intro first heads
    rcases head?_returns returns rest first heads with rfl | rfl <;> decide
  rw [toList_text, toList_text] at same
  obtain ⟨names, same⟩ := readable_name legible.name legible'.name endsName endsName
    (List.cons_eq_cons.1 same).2
  obtain ⟨params, same⟩ := readable_params legible.params legible'.params endsParams
    endsParams same
  obtain ⟨returns, same⟩ := readable_returns trivial trivial (by rintro _ ⟨⟩; decide)
    (by rintro _ ⟨⟩; decide) same
  have lines := (List.cons.inj (List.cons.inj (List.cons.inj same).2).2).2
  obtain ⟨body, same⟩ := Entry.selfDelimiting_line.flatMap Entry.opensWith_line legible.body
    legible'.body (by rintro _ ⟨⟩; decide) (by rintro _ ⟨⟩; decide) lines
  refine ⟨?_, (List.cons_eq_cons.1 same).2⟩
  rw [unplaced, unplaced, Function.mk.injEq]
  exact ⟨names, params, body, returns, rfl⟩

end Function

namespace Program

/-- A program whose names are identifiers and whose literals are shown by their types. -/
def Legible (program : Program) : Prop :=
  ∀ function ∈ program.functions, function.Legible

instance : DecidablePred Legible := fun program =>
  inferInstanceAs (Decidable (∀ function ∈ program.functions, function.Legible))

end Program

/-- The text form identifies a program. Programs whose names are identifiers and whose literals are
shown by their types have one text just when they differ in nothing but positions. -/
theorem text_identifies {program other : Program} (legible : program.Legible)
    (legible' : other.Legible) :
    program.text = other.text ↔ program.unplaced = other.unplaced := by
  constructor
  · intro same
    have opens : OpensWith (fun function : Function => function.text.toList) Function.Legible
        fun first => first = '\n' ∨ first = '@' := by
      intro function _
      exact ⟨'@', _, by simpa using function.toList_text [], .inr rfl⟩
    have letters (program : Program) : program.text.toList =
        ['\n'].intercalate (program.functions.map fun function => function.text.toList) ++ [] := by
      rw [Program.text, String.toList_intercalate, List.map_map, List.append_nil]
      rfl
    obtain ⟨functions, -⟩ := Function.selfDelimiting.intercalate opens (.inl rfl) [] legible
      legible' (by simp) (by simp) ((letters program).symm.trans (same ▸ letters other))
    exact congrArg Program.mk functions
  · intro same
    rw [← program.text_unplaced, same, other.text_unplaced]

/-- A program that takes pointers to pointers and assigns a given character and one that is written
as an escape, with a given position for its parts. -/
def quotedPointers (character : Char) (pos : Option Position) : Program := { functions := [
  { name := "main.1", returns := some .bool, pos,
    params := [{ name := "%p", ty := .ptr (.ptr .int) }, { name := "_c", ty := .char }],
    body := [
      .label "again" pos,
      .instr (.const "quoted" .char (.char character) pos),
      .instr (.const "line" .char (.char '\n') pos),
      .instr (.const "less" .int (.int (-1)) pos),
      .instr (.value .call "ok" .bool { funcs := ["quiet"], args := ["quoted", "less"] } pos),
      .instr (.effect .br { args := ["ok"], labels := ["again", "done"] } pos),
      .label "done" pos,
      .instr (.effect .ret { args := ["ok"] } pos)] },
  { name := "quiet", pos }] }

/-- The text tells a quote between quotes from a backslash, and does not show positions. -/
theorem text_identifies_quotedPointers :
    (quotedPointers '\'' none).text = (quotedPointers '\'' (some ⟨3, 7⟩)).text ∧
      (quotedPointers '\'' none).text ≠ (quotedPointers '\\' (some ⟨3, 7⟩)).text :=
  ⟨(text_identifies (by decide) (by decide)).2 rfl,
    mt (text_identifies (by decide) (by decide)).1 (by decide)⟩

end Midend.Lang
