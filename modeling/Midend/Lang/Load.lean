import Midend.Fault
import Midend.Json.Record
import Midend.Lang.Decode

/-!
# Loading programs

The readers of the parts of a program, from the types up to the program itself. Only the entries of
function bodies are read as JSON first and recognised afterwards; everything else is read knowing
what is wanted.
-/

namespace Midend.Lang

open Json (Reader Record Field)

/-- The names that a type may start with. -/
def tyNames : List String := ["int", "bool", "float", "char", "ptr"]

/-- The fault of a name that no type starts with. -/
def unknownTy (name : String) : Json.Fault :=
  .mismatch (.unknownName name tyNames)

/-- A type written as a bare name. -/
def namedTy (name : String) : Except Json.Fault Ty :=
  match plainTy? name with
  | some ty => .ok ty
  | none =>
    if name = "ptr" then .error (.mismatch (.wrongKind .bareName "newtype variant"))
    else .error (unknownTy name)

/-- `null`, the value of a plain type written as an object. -/
def readNull (input : List Char) : Except Json.Fault (List Char) :=
  match Json.skipBlanks input with
  | 'n' :: rest => Json.passWord ['u', 'l', 'l'] rest
  | start => Json.refuse "unit" start

/-- The name of a type written as an object, behind its brace. Nothing but a string can stand
there. -/
def readTyKey (input : List Char) : Except Json.Fault (String × List Char) :=
  match Json.skipBlanks input with
  | [] => .error .ended
  | '"' :: rest => Json.readText rest
  | _ => .error .malformed

/-- A type. -/
def Ty.read : Reader Ty := fun depth input =>
  match Json.skipBlanks input with
  | [] => .error .ended
  | '"' :: rest => do
    let (name, rest) ← Json.readText rest
    return (← namedTy name, rest)
  | '{' :: rest =>
    match depth with
    | 0 => .error .malformed
    | depth + 1 => do
      let (name, rest) ← readTyKey rest
      match plainTy? name with
      | some ty =>
        let rest ← readNull (← Json.passColon rest)
        return (ty, ← Json.closeObject rest)
      | none =>
        if name = "ptr" then
          let (target, rest) ← Ty.read depth (← Json.passColon rest)
          return (.ptr target, ← Json.closeObject rest)
        else .error (unknownTy name)
  | _ => .error .malformed

/-- A position. -/
def Position.record : Record Position where
  title := "struct Position"
  fields := [
    .mandatory "row" Json.readUInt32 fun pos row => { pos with row },
    .mandatory "col" Json.readUInt32 fun pos col => { pos with col }]
  blank := default

/-- A parameter. -/
def Parameter.record : Record Parameter where
  title := "struct Argument"
  fields := [
    .mandatory "name" Json.readString fun param name => { param with name },
    .mandatory "type" Ty.read fun param ty => { param with ty }]
  blank := default

/-- An entry of a function body. -/
def Entry.read : Reader Entry := fun depth input => do
  let (value, rest) ← Json.readValue depth input
  match Entry.decode value with
  | some entry => .ok (entry, rest)
  | none => .error (.mismatch (.unfit "Code"))

/-- A function. -/
def Function.record : Record Function where
  title := "struct Function"
  fields := [
    .mandatory "name" Json.readString fun function name => { function with name },
    .optional "args" (Json.readList Parameter.record.read)
      fun function params => { function with params },
    .optional "instrs" (Json.readList Entry.read) fun function body => { function with body },
    .optional "type" (Json.readOptional Ty.read) fun function returns => { function with returns },
    .optional "pos" (Json.readOptional Position.record.read) fun function pos =>
      { function with pos }]
  blank := { name := "" }

/-- A program. -/
def Program.record : Record Program where
  title := "struct Program"
  fields := [
    .mandatory "functions" (Json.readList Function.record.read) fun _ functions => { functions }]
  blank := {}

/-- `Program::from_json` — the program that a JSON text holds. -/
def Program.ofJson (text : String) : Except Midend.Fault Program :=
  match Json.finish (Program.record.read Json.nestingLimit text.toList) with
  | .ok program => .ok program
  | .error cause => .error (.json cause)

end Midend.Lang
