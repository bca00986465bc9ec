/-
What a value of one type is worth as another. Every value has a number, a
text and a truth, so no operator ever fails.

A text is worth the number it spells, blanks around it aside: an optional
sign and a decimal literal, the word for infinity, or a whole number in
base 16, 8 or 2 behind its mark. Blank text is worth zero and any other
text NaN.

A number is worth the shortest decimal that reads back as it, in plain
layout as long as that stays readable.
-/
import Reckoner.Binary64.Arithmetic
import Reckoner.Binary64.Layout
import Reckoner.Decimal.Reading
import Reckoner.Operator
import Reckoner.Text.Blank
import Reckoner.Value.Basic

namespace Reckoner

-- ====================================================== text to number

namespace Numeric

/-- What a digit is worth in a base up to 16. -/
def digit? (base : Nat) (c : Char) : Option Nat :=
  let worth :=
    if c.isDigit then some (c.toNat - '0'.toNat)
    else if 'a' ≤ c ∧ c ≤ 'f' then some (c.toNat - 'a'.toNat + 10)
    else if 'A' ≤ c ∧ c ≤ 'F' then some (c.toNat - 'A'.toNat + 10)
    else none
  worth.filter (· < base)

/-- The number that one or more digits denote in a base, each step of the
sum being rounded. -/
def ofDigits (base : Nat) (cs : List Char) : Binary64 :=
  if cs = [] then .nan
  else
    let step (sum : Binary64) (c : Char) : Option Binary64 :=
      (digit? base c).map fun d => sum * .ofNat base + .ofNat d
    (cs.foldlM step .zero).getD .nan

/-- The number that a text without blanks around it spells. -/
def ofTrimmed (cs : List Char) : Binary64 :=
  if cs = [] then .zero
  else if cs = "Infinity".toList ∨ cs = "+Infinity".toList then .infinity
  else if cs = "-Infinity".toList then .negativeInfinity
  else match cs with
    | '0' :: 'x' :: digits | '0' :: 'X' :: digits => ofDigits 16 digits
    | '0' :: 'o' :: digits | '0' :: 'O' :: digits => ofDigits 8 digits
    | '0' :: 'b' :: digits | '0' :: 'B' :: digits => ofDigits 2 digits
    | '+' :: literal => .ofLiteral false literal
    | '-' :: literal => .ofLiteral true literal
    | literal => .ofLiteral false literal

/-- The number that a text spells. -/
def ofText (s : String) : Binary64 := ofTrimmed (Text.trimBlanks s.toList)

-- ====================================================== number to text

/-- The least magnitude in plain layout, a millionth. -/
def plainFrom : Decimal := ⟨1, -6⟩

/-- The least magnitude past plain layout, of twenty-two digits. -/
def plainBelow : Decimal := ⟨1, 21⟩

/-- The text that a number is worth. Both zeros are written alike. -/
def toText : Binary64 → String
  | .nan => "NaN"
  | .signed negative m =>
    let sign := if negative then "-" else ""
    if m.isInfinite then sign ++ "Infinity"
    else if m.isZero then "0"
    else
      let readable := plainFrom.toMagnitude.rank ≤ m.rank ∧ m.rank < plainBelow.toMagnitude.rank
      sign ++ String.ofList (if readable then m.shortest.plain else m.shortest.scientific)

end Numeric

-- =========================================================== coercions

namespace Value

variable {φ : Type}

/-- The number that a value is worth. -/
def toNumber : Value φ → Binary64
  | number x => x
  | text s => Numeric.ofText s
  | function _ | undefined => .nan

/-- The text that a value is worth. -/
def toText [HostFunction φ] : Value φ → String
  | number x => Numeric.toText x
  | text s => s
  | function f => "function " ++ HostFunction.name f
  | undefined => "undefined"

/-- Does a value choose the first arm of a conditional? Zero, NaN, empty
text and the absence of a value do not. -/
def isTruthy : Value φ → Bool
  | number x => !(x.isZero || x.isNaN)
  | text s => !s.isEmpty
  | function _ => true
  | undefined => false

/-- A value as a log of calls shows it, which tells text from numbers. -/
def inspect [HostFunction φ] : Value φ → String
  | number x => Numeric.toText x
  | text s => Text.quoted s
  | function f => "<function " ++ HostFunction.name f ++ ">"
  | undefined => "undefined"

/-- The result of an operator: joined text if an operand of a sum is
text, and arithmetic otherwise. -/
def combine [HostFunction φ] (op : Operator) (left right : Value φ) : Value φ :=
  match op with
  | .add =>
    if left.isText || right.isText then text (left.toText ++ right.toText)
    else number (left.toNumber + right.toNumber)
  | .sub => number (left.toNumber - right.toNumber)
  | .mul => number (left.toNumber * right.toNumber)
  | .div => number (left.toNumber / right.toNumber)

end Value

end Reckoner
