import Midend.Json.Numeral
import Midend.Json.Scan

/-!
# Reading JSON

`readValue` reads a value strictly; `passValue` passes over one that nobody asked for and is more
lenient about what strings and numbers hold. Both nest lists and objects by recursion on the number
of brackets that may still be opened, so that the limit on nesting is also what makes them end.
-/

namespace Midend.Json

/-- How many brackets may be open at once. -/
def nestingLimit : Nat := 127

/-- The items of a list from a given item on, and the closing bracket; `fuel` bounds their
number. -/
def readItems {α : Type} (item : List Char → Except Fault (α × List Char)) :
    (fuel : Nat) → (isFirst : Bool) → List Char → Except Fault (List α × List Char)
  | 0, _, _ => .error .ended
  | fuel + 1, isFirst, input => do
    match ← nextItem isFirst input with
    | none =>
      let rest ← closeList input
      .ok ([], rest)
    | some start =>
      let (first, rest) ← item start
      let (others, rest) ← readItems item fuel false rest
      .ok (first :: others, rest)

/-- Goes through the members of an object from a given member on, and the closing brace. A member's
visitor is given the key and the input behind it, and changes a state; `fuel` bounds the number of
members. -/
def foldMembers {σ : Type} (key : List Char → Except Fault (String × List Char))
    (visit : σ → String → List Char → Except Fault (σ × List Char)) :
    (fuel : Nat) → (isFirst : Bool) → σ → List Char → Except Fault (σ × List Char)
  | 0, _, _, _ => .error .ended
  | fuel + 1, isFirst, state, input => do
    match ← nextKey isFirst input with
    | none =>
      let rest ← closeObject input
      .ok (state, rest)
    | some start =>
      let (name, rest) ← key start
      let (state, rest) ← visit state name rest
      foldMembers key visit fuel false state rest

/-- How the strings and numbers inside a value are read. -/
structure Leaves where
  text : List Char → Except Fault (String × List Char)
  number : List Char → Except Fault (Value × List Char)

/-- Strings and numbers in full. -/
def Leaves.strict : Leaves := ⟨readText, readNumber⟩

/-- Strings and numbers passed over. -/
def Leaves.lenient : Leaves where
  text input := return ("", ← passText input)
  number input := return (.null, ← passNumber input)

/-- Adds the member of an object whose name has been read, with the value behind its colon. -/
def addMember (value : List Char → Except Fault (Value × List Char))
    (members : Array (String × Value)) (name : String) (input : List Char) :
    Except Fault (Array (String × Value) × List Char) := do
  let (value, rest) ← value (← passColon input)
  .ok (members.push (name, value), rest)

/-- A value with at most `depth` brackets open at once. -/
def Leaves.read (leaves : Leaves) (depth : Nat) (input : List Char) :
    Except Fault (Value × List Char) :=
  match skipBlanks input with
  | [] => .error .ended
  | 'n' :: rest => return (.null, ← passWord ['u', 'l', 'l'] rest)
  | 't' :: rest => return (.boolean true, ← passWord ['r', 'u', 'e'] rest)
  | 'f' :: rest => return (.boolean false, ← passWord ['a', 'l', 's', 'e'] rest)
  | '"' :: rest => do
    let (text, rest) ← leaves.text rest
    .ok (.text text, rest)
  | '[' :: rest =>
    match depth with
    | 0 => .error .malformed
    | depth + 1 => do
      let (items, rest) ← readItems (leaves.read depth) (rest.length + 1) true rest
      .ok (.list items, rest)
  | '{' :: rest =>
    match depth with
    | 0 => .error .malformed
    | depth + 1 => do
      let (members, rest) ←
        foldMembers leaves.text (addMember (leaves.read depth)) (rest.length + 1) true #[] rest
      .ok (.object members.toList, rest)
  | first :: rest =>
    if first = '-' || isDigit first then leaves.number (first :: rest) else .error .malformed

/-- A value, read strictly. -/
def readValue (depth : Nat) (input : List Char) : Except Fault (Value × List Char) :=
  Leaves.strict.read depth input

/-- Passes over a value, however deeply nested: each bracket takes one character of the input. -/
def passValue (input : List Char) : Except Fault (List Char) := do
  let (_, rest) ← Leaves.lenient.read input.length input
  .ok rest

/-- Only blanks may follow the value that a text holds. -/
def finish {α : Type} (reading : Except Fault (α × List Char)) : Except Fault α := do
  let (value, rest) ← reading
  if (skipBlanks rest).isEmpty then .ok value else .error .malformed

/-- The value that a text holds. -/
def Value.ofText (text : String) : Except Fault Value :=
  finish (readValue nestingLimit text.toList)

end Midend.Json
