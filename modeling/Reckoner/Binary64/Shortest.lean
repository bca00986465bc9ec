/-
The fewest digits that read back. Of all decimals with n digits only the
two next to a number can be nearest to it, so for n = 1, 2, … 17 those
two are read back, and the first n for which one of them gives the number
again decides. Of two that do, the nearer is taken, and the upper one if
they are equally near.

Seventeen digits always suffice. Nothing depends on that: where no short
decimal reads back, the exact one does.
-/
import Reckoner.Decimal.Basic

namespace Reckoner.Magnitude

/-- Of the two decimals with `n` leading digits next to the decimal
`exact`, the one that reads back as `m`, the nearer if both do. `length`
counts the digits of `exact`. -/
def shortened? (m : Magnitude) (exact : Decimal) (length n : Nat) : Option Decimal :=
  let dropped := length - n
  let step := 10 ^ dropped
  let below : Decimal := ⟨exact.coefficient / step, exact.exponent + dropped⟩
  let above : Decimal := ⟨exact.coefficient / step + 1, exact.exponent + dropped⟩
  if below.toMagnitude = m then
    if above.toMagnitude = m ∧ step ≤ 2 * (exact.coefficient % step) then some above
    else some below
  else if above.toMagnitude = m then some above
  else none

/-- The shortest decimal that reads back as `m`, without trailing
zeros. -/
def shortest (m : Magnitude) : Decimal :=
  let exact := m.toDecimal
  let length := (Nat.toDigits 10 exact.coefficient).length
  ((List.range' 1 17).findSome? (m.shortened? exact length)).getD exact |>.trimmed

end Reckoner.Magnitude
