/-
Lines of a text and places in them. A line keeps the characters that end
it, so the lines of a text make up the text again, and a text that ends
with a line end has no empty line after it. A place is given as a byte
offset and found as a line and the number of characters before it.
-/
import Reckoner.Text.Bytes

namespace Reckoner.Text

/-- Does the character end a line? A carriage return and a line feed
after it end one line together. -/
def endsLine (c : Char) : Bool :=
  c == '\n' || c == '\x0b' || c == '\x0c' || c == '\r' || c == '\u0085' ||
    c == '\u2028' || c == '\u2029'

/-- Puts a character before the first of several lines. -/
def extendFirst (c : Char) : List (List Char) → List (List Char)
  | [] => [[c]]
  | line :: rest => (c :: line) :: rest

/-- The lines of a text, none of the empty text. -/
def linesOf : List Char → List (List Char)
  | [] => []
  | '\r' :: '\n' :: rest => ['\r', '\n'] :: linesOf rest
  | c :: rest => if endsLine c then [c] :: linesOf rest else extendFirst c (linesOf rest)

/-- The number of characters that begin before a byte offset. -/
def charsBefore : Nat → List Char → Nat
  | 0, _ | _, [] => 0
  | offset + 1, c :: cs => 1 + charsBefore (offset + 1 - c.utf8Size) cs

/-- A place in a text. -/
structure Place where
  /-- The number of lines before the one with the place. -/
  index : Nat
  /-- The line, with the characters that end it. -/
  line : List Char
  /-- The byte offset at which the line begins. -/
  start : Nat
  /-- The number of characters of the line before the place. -/
  column : Nat
deriving DecidableEq, Inhabited

/-- The place of a byte offset among lines that begin at `start`. What
lies past the last line counts on in it. -/
def locateFrom (index start offset : Nat) : List (List Char) → Place
  | [] => ⟨index, [], start, 0⟩
  | [line] => ⟨index, line, start, charsBefore (offset - start) line⟩
  | line :: next :: rest =>
    let stop := start + byteLength line
    if offset < stop then ⟨index, line, start, charsBefore (offset - start) line⟩
    else locateFrom (index + 1) stop offset (next :: rest)

/-- The place of a byte offset in a text. -/
def locate (offset : Nat) (cs : List Char) : Place := locateFrom 0 0 offset (linesOf cs)

/-- Lines make up the text that they are the lines of. -/
theorem flatten_linesOf (cs : List Char) : (linesOf cs).flatten = cs := by
  fun_induction linesOf cs with
  | case1 => rfl
  | case2 rest ih => simp [ih]
  | case3 c rest _ _ ih => simp [ih]
  | case4 c rest _ _ ih =>
    generalize linesOf rest = ls at ih
    cases ls <;> simp_all [extendFirst]

end Reckoner.Text
