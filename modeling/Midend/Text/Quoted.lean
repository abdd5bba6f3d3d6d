import Midend.Text.Printable

/-!
# Quoted text

How a piece of text is shown inside a message: between double quotes, with the quote, the
backslash and everything that does not print replaced by an escape, so that the reader can tell
exactly which characters were met.
-/

namespace Midend.Text

/-- A code point in lower-case hexadecimal between braces. -/
def codePointEscape (character : Char) : String :=
  "\\u\x7b" ++ String.ofList (Nat.toDigits 16 character.toNat) ++ "\x7d"

/-- One character of quoted text. -/
def quotedChar (character : Char) : String :=
  if character = '"' then "\\\""
  else if character = '\\' then "\\\\"
  else if character = '\n' then "\\n"
  else if character = '\r' then "\\r"
  else if character = '\t' then "\\t"
  else if character = '\x00' then "\\0"
  else if isShown character then character.toString
  else codePointEscape character

/-- Text between double quotes, free of unprintable characters. -/
def quoted (text : String) : String :=
  "\"" ++ String.join (text.toList.map quotedChar) ++ "\""

end Midend.Text
