import Stacklet.Text.Printable

/-! # Quoted text in messages

A message shows text between quotes so that it can be told from the words around it: the quote, the
backslash and a few controls have escapes of their own, and every other character that could not be
seen alone is shown by its number.
-/

namespace Stacklet.Text

/-- The number of a character, in lower-case hexadecimal between braces. -/
def numberedEscape (c : Char) : String :=
  "\\u\x7b" ++ String.ofList (Nat.toDigits 16 c.toNat) ++ "\x7d"

/-- A character as it stands between two quotes. -/
def escaped (quote c : Char) : String :=
  if c = '\x00' then "\\0"
  else if c = '\t' then "\\t"
  else if c = '\r' then "\\r"
  else if c = '\n' then "\\n"
  else if c = '\\' then "\\\\"
  else if c = quote then String.ofList ['\\', quote]
  else if isExtending c || !isPrintable c then numberedEscape c
  else c.toString

/-- A character between single quotes. -/
def quotedChar (c : Char) : String :=
  "'" ++ escaped '\'' c ++ "'"

/-- A text between double quotes. -/
def quotedString (text : String) : String :=
  "\"" ++ String.join (text.toList.map (escaped '"')) ++ "\""

example : quotedString "it's \"ok\"\n" = "\"it's \\\"ok\\\"\\n\"" := by decide +kernel

example : quotedChar '\'' = "'\\''" := by decide +kernel

end Stacklet.Text
