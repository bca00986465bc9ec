/-
Blanks: what may stand between tokens and is trimmed off text before it
is read as a number. The property is White_Space, which holds the line
ends and the fixed-width spaces as well as the plain space, but none of
the invisible joiners.
-/
import Reckoner.Text.Ranges

namespace Reckoner.Text

/-- Characters with the property White_Space. -/
def whiteSpace : Ranges := [
  (0x9, 0xD), (0x20, 0x20), (0x85, 0x85), (0xA0, 0xA0), (0x1680, 0x1680), (0x2000, 0x200A),
  (0x2028, 0x2029), (0x202F, 0x202F), (0x205F, 0x205F), (0x3000, 0x3000)]

/-- Is the character a blank? -/
def isBlank (c : Char) : Bool := whiteSpace.contains c

/-- The text without the blanks at either end. -/
def trimBlanks (cs : List Char) : List Char :=
  ((cs.dropWhile isBlank).reverse.dropWhile isBlank).reverse

end Reckoner.Text
