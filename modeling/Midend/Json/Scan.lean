import Midend.Json.Fault

/-!
# The letters of JSON

Blanks, keywords, strings and the separators of lists and objects. Every function here takes the
remaining input and returns what it read together with the input after it; the first fault in
reading order is the one reported.
-/

namespace Midend.Json

/-- The four characters that may stand between tokens. -/
def isBlank (character : Char) : Bool :=
  character = ' ' || character = '\t' || character = '\n' || character = '\r'

/-- The input from its first token on. -/
def skipBlanks (input : List Char) : List Char :=
  input.dropWhile isBlank

/-- Passes over the letters of a keyword. -/
def passWord : List Char → List Char → Except Fault (List Char)
  | [], input => .ok input
  | _ :: _, [] => .error .ended
  | letter :: word, character :: input =>
    if character = letter then passWord word input else .error .malformed

/-- The value of a hexadecimal digit of either case. -/
def hexDigit? (character : Char) : Option Nat :=
  if '0' ≤ character && character ≤ '9' then some (character.toNat - '0'.toNat)
  else if 'a' ≤ character && character ≤ 'f' then some (character.toNat - 'a'.toNat + 10)
  else if 'A' ≤ character && character ≤ 'F' then some (character.toNat - 'A'.toNat + 10)
  else none

/-- Four hexadecimal digits. Input of fewer than four bytes has ended; other characters are a
fault of their own. -/
def readHex4 : List Char → Except Fault (Nat × List Char)
  | input@(first :: second :: third :: fourth :: rest) =>
    match hexDigit? first, hexDigit? second, hexDigit? third, hexDigit? fourth with
    | some a, some b, some c, some d => .ok (((a * 16 + b) * 16 + c) * 16 + d, rest)
    | _, _, _, _ => .error (shortage input)
  | input => .error (shortage input)
where
  /-- Tells input that stops from input that goes on differently. -/
  shortage (input : List Char) : Fault :=
    if (String.ofList (input.take 4)).utf8ByteSize < 4 then .ended else .malformed

/-- The character that a one-letter escape stands for. -/
def shortEscape? : Char → Option Char
  | '"' => some '"'
  | '\\' => some '\\'
  | '/' => some '/'
  | 'b' => some '\x08'
  | 'f' => some '\x0c'
  | 'n' => some '\n'
  | 'r' => some '\r'
  | 't' => some '\t'
  | _ => none

/-- The second half of a surrogate pair, with the escape that introduces it. -/
def readLowSurrogate : List Char → Except Fault (Nat × List Char)
  | [] => .error .ended
  | '\\' :: [] => .error .ended
  | '\\' :: 'u' :: rest => do
    let (unit, rest) ← readHex4 rest
    if 0xDC00 ≤ unit && unit ≤ 0xDFFF then .ok (unit, rest) else .error .malformed
  | _ => .error .malformed

/-- The character written by the digits after `\u`; characters beyond the basic plane are written
as a surrogate pair, and half a pair is a fault. -/
def readUnicode (input : List Char) : Except Fault (Char × List Char) := do
  let (unit, rest) ← readHex4 input
  if 0xDC00 ≤ unit && unit ≤ 0xDFFF then .error .malformed
  else if 0xD800 ≤ unit && unit ≤ 0xDBFF then
    let (low, rest) ← readLowSurrogate rest
    .ok (Char.ofNat ((unit - 0xD800) * 0x400 + (low - 0xDC00) + 0x10000), rest)
  else .ok (Char.ofNat unit, rest)

/-- The character written by an escape, after its backslash. -/
def readEscape : List Char → Except Fault (Char × List Char)
  | [] => .error .ended
  | 'u' :: rest => readUnicode rest
  | letter :: rest =>
    match shortEscape? letter with
    | some character => .ok (character, rest)
    | none => .error .malformed

/-- The characters of a string, after its opening quote and through its closing one; `fuel` bounds
their number. -/
def readCharacters : Nat → List Char → Except Fault (List Char × List Char)
  | 0, _ => .error .ended
  | _, [] => .error .ended
  | fuel + 1, character :: rest =>
    if character = '"' then .ok ([], rest)
    else if character = '\\' then do
      let (escaped, rest) ← readEscape rest
      let (others, rest) ← readCharacters fuel rest
      .ok (escaped :: others, rest)
    else if character < ' ' then .error .malformed
    else do
      let (others, rest) ← readCharacters fuel rest
      .ok (character :: others, rest)

/-- A string, after its opening quote. -/
def readText (input : List Char) : Except Fault (String × List Char) := do
  let (characters, rest) ← readCharacters input.length input
  .ok (String.ofList characters, rest)

/-- Passes over an escape without building its character: surrogates need not pair up. -/
def passEscape : List Char → Except Fault (List Char)
  | [] => .error .ended
  | 'u' :: rest => do
    let (_, rest) ← readHex4 rest
    .ok rest
  | letter :: rest => if (shortEscape? letter).isSome then .ok rest else .error .malformed

/-- Passes over the characters of a string and its closing quote. -/
def passCharacters : Nat → List Char → Except Fault (List Char)
  | 0, _ => .error .ended
  | _, [] => .error .ended
  | fuel + 1, character :: rest =>
    if character = '"' then .ok rest
    else if character = '\\' then do
      let rest ← passEscape rest
      passCharacters fuel rest
    else if character < ' ' then .error .malformed
    else passCharacters fuel rest

/-- Passes over a string, after its opening quote. -/
def passText (input : List Char) : Except Fault (List Char) :=
  passCharacters input.length input

/-- Where the next item of a list starts, or nothing if the list closes here; the closing bracket
is left in place. -/
def nextItem (isFirst : Bool) (input : List Char) : Except Fault (Option (List Char)) :=
  match skipBlanks input with
  | [] => .error .ended
  | ']' :: _ => .ok none
  | ',' :: rest =>
    if isFirst then .error .malformed
    else
      match skipBlanks rest with
      | [] => .error .ended
      | ']' :: _ => .error .malformed
      | item => .ok (some item)
  | item => if isFirst then .ok (some item) else .error .malformed

/-- The input behind the closing bracket of a list in which nothing further is wanted. -/
def closeList (input : List Char) : Except Fault (List Char) :=
  match skipBlanks input with
  | [] => .error .ended
  | ']' :: rest => .ok rest
  | _ => .error .malformed

/-- The input behind the quote that opens the next key of an object, or nothing if the object
closes here; the closing brace is left in place. -/
def nextKey (isFirst : Bool) (input : List Char) : Except Fault (Option (List Char)) :=
  match skipBlanks input with
  | [] => .error .ended
  | '}' :: _ => .ok none
  | ',' :: rest =>
    if isFirst then .error .malformed
    else
      match skipBlanks rest with
      | [] => .error .ended
      | '"' :: key => .ok (some key)
      | _ => .error .malformed
  | '"' :: key => if isFirst then .ok (some key) else .error .malformed
  | _ => .error .malformed

/-- The input behind the colon that follows a key. -/
def passColon (input : List Char) : Except Fault (List Char) :=
  match skipBlanks input with
  | [] => .error .ended
  | ':' :: rest => .ok rest
  | _ => .error .malformed

/-- The input behind the closing brace of an object in which nothing further is wanted. -/
def closeObject (input : List Char) : Except Fault (List Char) :=
  match skipBlanks input with
  | [] => .error .ended
  | '}' :: rest => .ok rest
  | _ => .error .malformed

end Midend.Json
