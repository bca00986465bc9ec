/-
Unsigned decimal literals: digits, of which some may follow a point, and
after them perhaps an exponent. At least one digit stands on one side of
the point, and an exponent has at least one of its own. An exponent past
every double is not counted to its end; within reach of the doubles it
is the number its digits denote (`exponentOfDigits_of_lt`). Signs and
blanks around the literal are for the caller.
-/
import Reckoner.Decimal.Basic

namespace Reckoner

namespace Decimal

/-- An exponent that has reached this much is past every double, and the
digits that follow no longer add to it. -/
def exponentReach : Nat := 65536

/-- The number that the digits of an exponent denote, counted until it is
out of reach. -/
def exponentOfDigits (ds : List Char) (start : Nat) : Nat :=
  ds.foldl (fun n c => if n < exponentReach then 10 * n + (c.toNat - '0'.toNat) else n) start

/-- Digits never make a number smaller. -/
theorem le_ofDigitChars (ds : List Char) (start : Nat) :
    start ≤ Nat.ofDigitChars 10 ds start := by
  induction ds generalizing start with
  | nil => simp
  | cons c ds ih =>
    rw [Nat.ofDigitChars_cons]
    exact Nat.le_trans (by omega) (ih _)

/-- Within reach an exponent is the number its digits denote. -/
theorem exponentOfDigits_of_lt {ds : List Char} {start : Nat}
    (h : Nat.ofDigitChars 10 ds start < exponentReach) :
    exponentOfDigits ds start = Nat.ofDigitChars 10 ds start := by
  induction ds generalizing start with
  | nil => simp [exponentOfDigits]
  | cons c ds ih =>
    have hs : start < exponentReach := Nat.lt_of_le_of_lt (le_ofDigitChars _ _) h
    rw [Nat.ofDigitChars_cons] at h ⊢
    rw [← ih h]
    simp [exponentOfDigits, hs]

/-- The exponent that digits after an optional sign denote; a sign alone
denotes none. -/
def signedExponent? (cs : List Char) : Option Int :=
  match cs with
  | '-' :: ds => (natural? ds).map fun n => -(n : Int)
  | '+' :: ds => (natural? ds).map Int.ofNat
  | ds => (natural? ds).map Int.ofNat
where
  /-- What one or more digits denote as an exponent. -/
  natural? (ds : List Char) : Option Nat :=
    if ds ≠ [] ∧ ds.all Char.isDigit then some (exponentOfDigits ds 0) else none

/-- The exponent that follows the digits of a literal: nothing, or the
letter and an integer. -/
def exponent? : List Char → Option Int
  | [] => some 0
  | c :: cs => if c = 'e' ∨ c = 'E' then signedExponent? cs else none

/-- The digits after the point, if the text starts with a point. -/
def fraction : List Char → List Char
  | '.' :: cs => cs.takeWhile Char.isDigit
  | _ => []

/-- What follows the digits after the point. -/
def afterFraction : List Char → List Char
  | '.' :: cs => cs.dropWhile Char.isDigit
  | cs => cs

/-- The decimal that a literal denotes, or nothing if the text is not a
literal from end to end. Each digit after the point lowers the exponent
by one. -/
def ofLiteral? (cs : List Char) : Option Decimal :=
  let whole := cs.takeWhile Char.isDigit
  let rest := cs.dropWhile Char.isDigit
  let places := fraction rest
  if whole = [] ∧ places = [] then none
  else (exponent? (afterFraction rest)).map fun e =>
    ⟨Nat.ofDigitChars 10 (whole ++ places) 0, e - places.length⟩

end Decimal

/-- The double nearest to what a literal denotes, with a sign; NaN if the
text is not a literal. -/
def Binary64.ofLiteral (negative : Bool) (cs : List Char) : Binary64 :=
  match Decimal.ofLiteral? cs with
  | some d => .signed negative d.toMagnitude
  | none => .nan

end Reckoner
