/-
Text shown in a message, between quotes and on one line. A backslash
announces what cannot stand for itself: the quote that would end the
literal, the backslash, the usual control characters by their letters,
and any other character that cannot be shown, is not drawn, or would join
the one before it, by its scalar value.
-/
import Reckoner.Text.Grapheme
import Reckoner.Text.Ignorable
import Reckoner.Text.Printable

namespace Reckoner.Text

/-- A character by its scalar value, in hexadecimal. -/
def escapeScalar (c : Char) : List Char :=
  "\\u\x7b".toList ++ Nat.toDigits 16 c.toNat ++ "\x7d".toList

/-- A character as it is written between two `quote` characters. -/
def escape (quote c : Char) : List Char :=
  if c = quote ∨ c = '\\' then ['\\', c]
  else if c = '\x00' then ['\\', '0']
  else if c = '\t' then ['\\', 't']
  else if c = '\r' then ['\\', 'r']
  else if c = '\n' then ['\\', 'n']
  else if extendsGrapheme c || isIgnorable c || !isPrintable c then escapeScalar c
  else [c]

/-- A text between double quotes. -/
def quoted (s : String) : String :=
  "\"" ++ String.ofList (s.toList.flatMap (escape '\x22')) ++ "\""

/-- A character between single quotes. -/
def quotedChar (c : Char) : String :=
  "'" ++ String.ofList (escape '\x27' c) ++ "'"

end Reckoner.Text
