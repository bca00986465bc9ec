/-
The two layouts of a number's shortest digits: plain, with as many zeros
as it takes and never an exponent, and scientific, with one digit before
the point and an exponent after it.
-/
import Reckoner.Binary64.Basic
import Reckoner.Binary64.Shortest

namespace Reckoner

namespace Decimal

/-- The digits of the coefficient. -/
def digits (d : Decimal) : List Char := Nat.toDigits 10 d.coefficient

/-- The plain layout: zeros are added on either side until the point is
reached, and there is always a digit before the point. -/
def plain (d : Decimal) : List Char :=
  match d.exponent with
  | .ofNat e => d.digits ++ List.replicate e '0'
  | .negSucc e =>
    let whole := d.digits.length - (e + 1)
    if 0 < whole then d.digits.take whole ++ '.' :: d.digits.drop whole
    else '0' :: '.' :: List.replicate (e + 1 - d.digits.length) '0' ++ d.digits

/-- The digits with a point after the first, or that digit alone. -/
def mantissa (d : Decimal) : List Char :=
  match d.digits with
  | first :: second :: rest => first :: '.' :: second :: rest
  | ds => ds

/-- The exponent that goes with the point after the first digit. -/
def leadingExponent (d : Decimal) : Int := d.exponent + d.digits.length - 1

/-- The scientific layout, where an exponent that is not negative has a
plus sign. -/
def scientific (d : Decimal) : List Char :=
  let e := d.leadingExponent
  let sign := if e < 0 then '-' else '+'
  d.mantissa ++ 'e' :: sign :: Nat.toDigits 10 e.natAbs

end Decimal

namespace Binary64

/-- The plain text of a number. Zero below has its sign; a number without
digits has a word. -/
def plainText : Binary64 → String
  | .nan => "NaN"
  | .signed negative m =>
    let sign := if negative then "-" else ""
    sign ++ if m.isInfinite then "inf" else String.ofList m.shortest.plain

end Binary64

end Reckoner
