/-
Decimal numbers as they are written: a whole number of some power of
ten. The number an unsigned literal denotes is one of these exactly, and
so is every double, since 2^-k is 5^k of 10^-k; the two sides of reading
and printing meet here.
-/
import Reckoner.Binary64.Rounding

namespace Reckoner

/-- The number `coefficient * 10 ^ exponent`. -/
structure Decimal where
  coefficient : Nat
  exponent : Int
deriving DecidableEq, Inhabited

namespace Decimal

/-- A coefficient with its trailing zeros moved into the exponent. -/
def stripZeros (coefficient : Nat) (exponent : Int) : Decimal :=
  if coefficient = 0 then ⟨0, 0⟩
  else if coefficient % 10 = 0 then stripZeros (coefficient / 10) (exponent + 1)
  else ⟨coefficient, exponent⟩
termination_by coefficient
decreasing_by omega

/-- The same number with the smallest coefficient. -/
def trimmed (d : Decimal) : Decimal := stripZeros d.coefficient d.exponent

-- ===================================================== nearest double

/-- The double nearest to a decimal, with no bound on the work. -/
def rounded (d : Decimal) : Magnitude :=
  match d.exponent with
  | .ofNat e => .ofQuotient (d.coefficient * 10 ^ e * 2 ^ 1074) 1
  | .negSucc e => .ofQuotient (d.coefficient * 2 ^ 1074) (10 ^ (e + 1))

/-- The double nearest to a decimal. The exponent may be a number of any
length, so what is certain to overflow or to vanish is settled before a
power of ten is formed: 10^309 is past the largest double, and a
coefficient below 2^(b+1) with a negative exponent e is worth less than
2^(b+1+3e), which vanishes from half the smallest subnormal down. -/
def toMagnitude (d : Decimal) : Magnitude :=
  if d.coefficient = 0 then .zero
  else if 309 ≤ d.exponent then .infinity
  else if d.coefficient.log2 + 1 + 3 * d.exponent ≤ -1075 then .zero
  else d.rounded

end Decimal

namespace Magnitude

/-- A magnitude as a decimal, exactly, infinity as what its place is
worth. -/
def toDecimal (m : Magnitude) : Decimal :=
  let places := 1074 - m.doublings
  ⟨m.significand * 2 ^ (m.doublings - 1074) * 5 ^ places, -places⟩

end Magnitude

end Reckoner
