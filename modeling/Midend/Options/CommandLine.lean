import Midend.Options

/-!
# Options on a command line

The words of a command line are read from left to right. A setting takes its value from behind an
equals sign or from the next word, unless that starts with a hyphen. What a setting says is looked
at only when the next known word comes or the line ends, so that an unknown word behind it is the
first thing complained of.
-/

namespace Midend

/-- Why a command line was not taken. -/
inductive Complaint
  /-- The value of a setting is missing or is none of those it has. -/
  | badValue
  /-- The value of a setting is no number of sixty-four bits. -/
  | notANumber
  | unknownWord
  /-- A setting or switch was given twice. -/
  | repeated
  /-- A switch was given a value. -/
  | needlessValue
  | helpAsked
  | versionAsked
deriving DecidableEq, Repr

namespace CommandLine

/-- A choice that takes a value. -/
inductive Setting
  | worklist
  | maxPasses
deriving DecidableEq, Repr

/-- A word that stands for itself. -/
inductive Switch
  | commutative
  | help
  | version
deriving DecidableEq, Repr

/-- What a line has said so far. -/
structure State where
  options : Options := {}
  /-- The settings given. -/
  given : List Setting := []
  /-- A setting that has not been looked at, with its value if it has one. -/
  pending : Option (Setting × Option String) := none
deriving DecidableEq, Repr

/-- The setting of a long name. -/
def Setting.ofName? : String → Option Setting
  | "worklist" => some .worklist
  | "max-dce-passes" => some .maxPasses
  | _ => none

/-- The switch of a long name. -/
def Switch.ofName? : String → Option Switch
  | "commutative-lvn" => some .commutative
  | "help" => some .help
  | "version" => some .version
  | _ => none

/-- The switch of a letter. -/
def Switch.ofLetter? : Char → Option Switch
  | 'h' => some .help
  | 'V' => some .version
  | _ => none

/-- The number written by decimal digits, behind a plus sign or not, if sixty-four bits hold it. -/
def count? (text : String) : Option Nat :=
  let digits := match text.toList with
    | '+' :: digits => digits
    | digits => digits
  let value := digits.foldl (fun value digit => value * 10 + (digit.toNat - '0'.toNat)) 0
  if !digits.isEmpty && digits.all Char.isDigit && value < UInt64.size then some value else none

/-- The worklist order of a name. -/
def order? : String → Option Order
  | "fifo" => some .fifo
  | "dedup" => some .dedup
  | _ => none

/-- The options with a setting made. -/
def Setting.apply (setting : Setting) (value : String) (options : Options) :
    Except Complaint Options :=
  match setting with
  | worklist =>
    match order? value with
    | some order => .ok { options with order }
    | none => .error .badValue
  | maxPasses =>
    match count? value with
    | some count => .ok { options with maxPasses := some count }
    | none => .error .notANumber

/-- Makes a setting, which needs a value and must not have been made before. -/
def State.make (state : State) (setting : Setting) (value : Option String) :
    Except Complaint State :=
  match value with
  | none => .error .badValue
  | some value => do
    if state.given.contains setting then .error .repeated
    else
      let options ← setting.apply value state.options
      return { state with options, given := setting :: state.given, pending := none }

/-- Looks at the setting that has not been looked at, if there is one. -/
def State.settle (state : State) : Except Complaint State :=
  match state.pending with
  | none => .ok state
  | some (setting, value) => state.make setting value

/-- Throws a switch. -/
def State.throw (state : State) : Switch → Except Complaint State
  | .help => .error .helpAsked
  | .version => .error .versionAsked
  | .commutative =>
    if state.options.commutative then .error .repeated
    else .ok { state with options := { state.options with commutative := true } }

/-- A long name, with the value behind its equals sign if there is one. -/
def State.long (state : State) (name : String) (value : Option String) : Except Complaint State :=
  match Setting.ofName? name, Switch.ofName? name with
  | some setting, _ => do
    let state ← state.settle
    match value with
    | some value => state.make setting value
    | none => return { state with pending := some (setting, none) }
  | none, some switch => do
    if value.isSome then .error .needlessValue
    else
      let state ← state.settle
      state.throw switch
  | none, none => .error .unknownWord

/-- Letters behind a single hyphen; the first decides. -/
def State.short (state : State) (letter : Char) : Except Complaint State :=
  match Switch.ofLetter? letter with
  | some switch => do
    let state ← state.settle
    state.throw switch
  | none => .error .unknownWord

/-- A word that does not start with a hyphen: the value that a setting waits for. -/
def State.plain (state : State) (word : String) : Except Complaint State :=
  match state.pending with
  | some (setting, none) => .ok { state with pending := some (setting, some word) }
  | _ => .error .unknownWord

/-- A name, and what stands behind its first equals sign. -/
def splitValue (letters : List Char) : String × Option String :=
  let name := String.ofList (letters.takeWhile (· != '='))
  match letters.dropWhile (· != '=') with
  | [] => (name, none)
  | _ :: value => (name, some (String.ofList value))

/-- One word of a line. -/
def State.word (state : State) (word : String) : Except Complaint State :=
  match word.toList with
  | '-' :: '-' :: letters =>
    let (name, value) := splitValue letters
    state.long name value
  | '-' :: letter :: _ => state.short letter
  | _ => state.plain word

/-- The words of a line. Behind a word of two hyphens nothing may follow. -/
def State.words : State → List String → Except Complaint State
  | state, [] => state.settle
  | state, word :: words =>
    if word = "--" then if words.isEmpty then state.settle else .error .unknownWord
    else do
      let state ← state.word word
      state.words words

end CommandLine

/-- `Config::try_from` — the options on a command line, whose first word is the name of the
program. -/
def Options.ofCommandLine (line : List String) : Except Complaint Options := do
  let state ← CommandLine.State.words {} line.tail
  return state.options

end Midend
