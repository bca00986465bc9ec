/-
The four operations. Each takes the exact result of its operands, as an
integer or as a quotient of integers in units of 2^-1074, and rounds it
once. What is left to say by cases is only what has no exact result:
infinities, the sign of a zero, and the combinations that give NaN.
-/
import Reckoner.Binary64.Rounding

namespace Reckoner.Binary64

/-- The exact worth of a signed magnitude, in units of 2^-1074. -/
def exact (negative : Bool) (m : Magnitude) : Int :=
  if negative then -(m.units : Int) else m.units

/-- The same number with the other sign. -/
def neg : Binary64 → Binary64
  | .nan => .nan
  | .signed s m => .signed (!s) m

/-- The sum. Opposite infinities have none; a zero sum is negative only
if both terms are. -/
def add : Binary64 → Binary64 → Binary64
  | .signed s a, .signed t b =>
    if a.isInfinite then
      if b.isInfinite && s != t then .nan else .signed s a
    else if b.isInfinite then .signed t b
    else
      let sum := exact s a + exact t b
      if sum = 0 then .signed (s && t) .zero
      else .signed (sum < 0) (.ofQuotient sum.natAbs 1)
  | _, _ => .nan

/-- The difference, which is the sum with the opposite. -/
def sub (x y : Binary64) : Binary64 := x.add y.neg

/-- The product. Infinity times zero has none. -/
def mul : Binary64 → Binary64 → Binary64
  | .signed s a, .signed t b =>
    if (a.isInfinite && b.isZero) || (a.isZero && b.isInfinite) then .nan
    else if a.isInfinite || b.isInfinite then .signed (s != t) .infinity
    else .signed (s != t) (.ofQuotient (a.units * b.units) (2 ^ 1074))
  | _, _ => .nan

/-- The quotient. A number over zero is infinite; zero over zero and
infinity over infinity have none. -/
def div : Binary64 → Binary64 → Binary64
  | .signed s a, .signed t b =>
    if (a.isInfinite && b.isInfinite) || (a.isZero && b.isZero) then .nan
    else if a.isInfinite || b.isZero then .signed (s != t) .infinity
    else if b.isInfinite then .signed (s != t) .zero
    else .signed (s != t) (.ofQuotient (a.units * 2 ^ 1074) b.units)
  | _, _ => .nan

instance : Neg Binary64 := ⟨neg⟩
instance : Add Binary64 := ⟨add⟩
instance : Sub Binary64 := ⟨sub⟩
instance : Mul Binary64 := ⟨mul⟩
instance : Div Binary64 := ⟨div⟩

/-- The double nearest to a natural number. -/
def ofNat (n : Nat) : Binary64 := .signed false (.ofQuotient (n * 2 ^ 1074) 1)

end Reckoner.Binary64
