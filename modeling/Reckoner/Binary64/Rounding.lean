/-
The one rounding step that every operation ends with: the magnitude
nearest to an exact quotient, a tie going to the even neighbour.

Within a run of ranks the worths are equally spaced, by 2^k units in the
run number k + 1, and the lowest run shares its spacing with the one
above it. So the place of a quotient is found by dividing it by the
spacing of its own run and adding the ranks that lie below. A quotient
that rounds up past the end of its run lands on the first rank of the
next by the same sum, and one past the last run is infinity; neither
needs a case of its own.
-/
import Reckoner.Binary64.Basic

namespace Reckoner

/-- The whole number nearest to `n / d`, a tie going to the even one. -/
def roundHalfEven (n d : Nat) : Nat :=
  let q := n / d
  let twice := 2 * (n % d)
  if twice < d ∨ (twice = d ∧ q % 2 = 0) then q else q + 1

namespace Magnitude

/-- The number of doublings from the finest spacing to the spacing of the
run that holds `units` units. -/
def spacing (units : Nat) : Nat := units.log2 - 52

/-- The magnitude nearest to `n / d` units. -/
def ofQuotient (n d : Nat) : Magnitude :=
  let k := spacing (n / d)
  ofRank (k * 2 ^ 52 + roundHalfEven n (d * 2 ^ k))

end Magnitude

-- ======================================================= small laws

@[simp] theorem roundHalfEven_one (n : Nat) : roundHalfEven n 1 = n := by
  simp [roundHalfEven, Nat.mod_one]

theorem roundHalfEven_mul (q d : Nat) (hd : 0 < d) : roundHalfEven (q * d) d = q := by
  simp [roundHalfEven, Nat.mul_div_cancel _ hd, hd]

/-- Rounding moves by at most one, and only upward from the floor. -/
theorem roundHalfEven_bounds (n d : Nat) :
    n / d ≤ roundHalfEven n d ∧ roundHalfEven n d ≤ n / d + 1 := by
  unfold roundHalfEven
  dsimp only
  split <;> omega

end Reckoner
