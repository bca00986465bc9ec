/-
Numbers read back. Rounding leaves alone what is a double already, and
it sees only the quotient and not the way it is written. From these two
facts every spelling of a number that the library makes is read back as
the number: the exact decimal, since it is worth the double it came from,
and the short ones, since each of them was read back before it was taken.

The shortcuts of reading have to be accounted for on the way. Decimals
past every double and decimals too small for any are settled before
their powers of ten are formed; both are settled as rounding would.
-/
import Reckoner.Binary64.Shortest

namespace Reckoner

-- ====================================================== what rounding sees

/-- Rounding sees the quotient alone. -/
theorem roundHalfEven_mul_mul (n d : Nat) {c : Nat} (hc : 0 < c) :
    roundHalfEven (n * c) (d * c) = roundHalfEven n d := by
  have hless : 2 * (n % d * c) < d * c ↔ 2 * (n % d) < d := by
    rw [← Nat.mul_assoc]
    exact Nat.mul_lt_mul_right hc
  have hsame : 2 * (n % d * c) = d * c ↔ 2 * (n % d) = d := by
    rw [← Nat.mul_assoc]
    exact Nat.mul_left_inj (Nat.ne_of_gt hc)
  unfold roundHalfEven
  simp only [Nat.mul_div_mul_right _ _ hc, Nat.mul_mod_mul_right, hless, hsame]

namespace Magnitude

/-- The nearest magnitude is that of the quotient, however it is
written. -/
theorem ofQuotient_mul_mul (n d : Nat) {c : Nat} (hc : 0 < c) :
    ofQuotient (n * c) (d * c) = ofQuotient n d := by
  unfold ofQuotient
  dsimp only
  rw [Nat.mul_div_mul_right _ _ hc, Nat.mul_right_comm d c, roundHalfEven_mul_mul _ _ hc]

/-- A significand of full length settles the spacing. -/
theorem spacing_mul_two_pow {s : Nat} (k : Nat) (hlow : 2 ^ 52 ≤ s) (hhigh : s < 2 ^ 53) :
    spacing (s * 2 ^ k) = k := by
  have hlog : (s * 2 ^ k).log2 = 52 + k := by
    rw [Nat.log2_eq_iff (Nat.ne_of_gt (Nat.mul_pos (by omega) (Nat.two_pow_pos _)))]
    rw [Nat.pow_add, Nat.add_right_comm, Nat.pow_add]
    exact ⟨Nat.mul_le_mul_right _ hlow, Nat.mul_lt_mul_of_pos_right hhigh (Nat.two_pow_pos _)⟩
  rw [spacing, hlog, Nat.add_sub_cancel_left]

/-- What a magnitude is worth is rounded to the magnitude itself. -/
theorem ofQuotient_units (m : Magnitude) : ofQuotient m.units 1 = m := by
  have hrank : m.rank = m.rank / 2 ^ 52 * 2 ^ 52 + m.rank % 2 ^ 52 := by omega
  unfold ofQuotient units
  dsimp only
  rw [Nat.div_one, Nat.one_mul]
  by_cases hlow : m.rank < 2 ^ 52
  · have hdoublings : m.doublings = 0 := by
      unfold doublings
      omega
    have hspacing : spacing (m.significand * 2 ^ m.doublings) = 0 := by
      rw [hdoublings, significand, if_pos hlow, Nat.pow_zero, Nat.mul_one, spacing]
      by_cases hzero : m.rank = 0
      · rw [hzero]
        rfl
      · have := (Nat.log2_lt hzero).2 hlow
        omega
    rw [hspacing, hdoublings, significand, if_pos hlow]
    simp only [Nat.zero_mul, Nat.zero_add, Nat.pow_zero, Nat.mul_one, roundHalfEven_one,
      ofRank_rank]
  · have hspacing : spacing (m.significand * 2 ^ m.doublings) = m.doublings := by
      refine spacing_mul_two_pow _ ?_ ?_ <;> rw [significand, if_neg hlow] <;> omega
    rw [hspacing, roundHalfEven_mul _ _ (Nat.two_pow_pos _), significand, if_neg hlow]
    have hsum : m.doublings * 2 ^ 52 + (2 ^ 52 + m.rank % 2 ^ 52) = m.rank := by
      unfold doublings
      omega
    rw [hsum, ofRank_rank]

/-- What is worth less than half a unit vanishes. -/
theorem ofQuotient_eq_zero {n d : Nat} (h : 2 * n < d) : ofQuotient n d = zero := by
  have hquotient : n / d = 0 := Nat.div_eq_of_lt (by omega)
  have hspacing : spacing 0 = 0 := rfl
  unfold ofQuotient
  dsimp only
  rw [hquotient, hspacing, Nat.zero_mul, Nat.zero_add, Nat.pow_zero, Nat.mul_one, roundHalfEven,
    hquotient, Nat.mod_eq_of_lt (by omega)]
  rw [if_pos (.inl h)]
  rfl

/-- What is worth 2^1024 overflows, the unit being 2^-1074. -/
theorem ofQuotient_eq_infinity {n d : Nat} (h : 2 ^ 2098 ≤ n / d) : ofQuotient n d = infinity := by
  have hpositive : n / d ≠ 0 := by
    have := Nat.two_pow_pos 2098
    omega
  have hlog : 2098 ≤ (n / d).log2 := (Nat.le_log2 hpositive).2 h
  have hround : 2 ^ 52 ≤ roundHalfEven n (d * 2 ^ spacing (n / d)) := by
    refine Nat.le_trans ?_ (roundHalfEven_bounds _ _).1
    rw [← Nat.div_div_eq_div_mul, Nat.le_div_iff_mul_le (Nat.two_pow_pos _), ← Nat.pow_add]
    have hsum : 52 + spacing (n / d) = (n / d).log2 := by
      unfold spacing
      omega
    rw [hsum]
    exact Nat.log2_self_le hpositive
  have hruns : 2046 * 2 ^ 52 ≤ spacing (n / d) * 2 ^ 52 :=
    Nat.mul_le_mul_right _ (by unfold spacing; omega)
  ext
  show min (spacing (n / d) * 2 ^ 52 + roundHalfEven n (d * 2 ^ spacing (n / d))) _ = _
  rw [rank_infinity]
  omega

end Magnitude

namespace Decimal

-- =========================================================== reading

/-- Rounding a decimal, counted in units of any power of ten that makes
it whole. -/
theorem rounded_eq (d : Decimal) {p m : Nat} (h : d.exponent + p = m) :
    d.rounded = .ofQuotient (d.coefficient * 10 ^ m * 2 ^ 1074) (10 ^ p) := by
  obtain ⟨c, e⟩ := d
  dsimp only at h ⊢
  unfold rounded
  generalize 2 ^ 1074 = u
  cases e with
  | ofNat e =>
    have hm : m = e + p := by
      have : (Int.ofNat e : Int) = (e : Int) := rfl
      omega
    dsimp only
    rw [← Magnitude.ofQuotient_mul_mul _ _ (Nat.pow_pos (n := p) (by decide : 0 < 10)), hm,
      Nat.pow_add, Nat.one_mul, Nat.mul_right_comm (c * 10 ^ e) u, Nat.mul_assoc c]
  | negSucc e =>
    have hp : p = e + 1 + m := by omega
    dsimp only
    rw [← Magnitude.ofQuotient_mul_mul _ _ (Nat.pow_pos (n := m) (by decide : 0 < 10)), hp,
      Nat.pow_add 10 (e + 1) m, Nat.mul_right_comm c]

/-- Zeros may stand in the coefficient or in the exponent. -/
theorem rounded_shift (c k : Nat) (e : Int) :
    (⟨c * 10 ^ k, e⟩ : Decimal).rounded = (⟨c, e + k⟩ : Decimal).rounded := by
  obtain ⟨m, hm⟩ : ∃ m : Nat, e + e.natAbs = m := ⟨(e + e.natAbs).toNat, by omega⟩
  have hshifted : e + k + e.natAbs = (k + m : Nat) := by omega
  rw [rounded_eq ⟨c * 10 ^ k, e⟩ hm, rounded_eq ⟨c, e + k⟩ hshifted]
  dsimp only
  rw [Nat.pow_add, Nat.mul_assoc c]

theorem rounded_zero (e : Int) : (⟨0, e⟩ : Decimal).rounded = .zero := by
  obtain ⟨m, hm⟩ : ∃ m : Nat, e + e.natAbs = m := ⟨(e + e.natAbs).toNat, by omega⟩
  rw [rounded_eq ⟨0, e⟩ hm]
  apply Magnitude.ofQuotient_eq_zero
  simp only [Nat.zero_mul, Nat.mul_zero]
  exact Nat.pow_pos (by decide)

/-- No zeros are lost by moving them into the exponent. -/
theorem stripZeros_rounded (c : Nat) (e : Int) :
    (stripZeros c e).rounded = (⟨c, e⟩ : Decimal).rounded := by
  fun_induction stripZeros c e with
  | case1 e => rw [rounded_zero, rounded_zero]
  | case2 c e hc hzero ih =>
    have hten : c / 10 * 10 ^ 1 = c := by omega
    rw [ih, ← Int.natCast_one, ← rounded_shift, hten]
  | case3 => rfl

/-- Past 10^309 every decimal overflows. -/
theorem rounded_of_large {d : Decimal} (hc : d.coefficient ≠ 0) (h : 309 ≤ d.exponent) :
    d.rounded = .infinity := by
  obtain ⟨m, hm⟩ : ∃ m : Nat, d.exponent + (0 : Nat) = m := ⟨d.exponent.toNat, by omega⟩
  rw [rounded_eq d hm]
  apply Magnitude.ofQuotient_eq_infinity
  rw [Nat.pow_zero, Nat.div_one]
  have hpast : 2 ^ 1024 ≤ 10 ^ 309 := by decide +kernel
  have hpower : 2 ^ 1024 ≤ d.coefficient * 10 ^ m := calc
    2 ^ 1024 ≤ 10 ^ 309 := hpast
    _ ≤ 10 ^ m := Nat.pow_le_pow_right (by decide : 10 > 0) (by omega : 309 ≤ m)
    _ ≤ d.coefficient * 10 ^ m := Nat.le_mul_of_pos_left _ (Nat.pos_of_ne_zero hc)
  have hsplit : 2 ^ 2098 = 2 ^ 1024 * 2 ^ 1074 := by rw [← Nat.pow_add]
  rw [hsplit]
  exact Nat.mul_le_mul_right _ hpower

/-- A coefficient too short for its exponent vanishes, since a power of
ten is at least three of two. -/
theorem rounded_of_small {d : Decimal} (h : d.coefficient.log2 + 1 + 3 * d.exponent ≤ -1075) :
    d.rounded = .zero := by
  obtain ⟨p, hp⟩ : ∃ p : Nat, d.exponent + p = (0 : Nat) := ⟨(-d.exponent).toNat, by omega⟩
  rw [rounded_eq d hp]
  apply Magnitude.ofQuotient_eq_zero
  have hshort : d.coefficient < 2 ^ (d.coefficient.log2 + 1) := Nat.lt_log2_self
  rw [Nat.pow_zero, Nat.mul_one]
  calc 2 * (d.coefficient * 2 ^ 1074)
      = d.coefficient * (2 * 2 ^ 1074) := Nat.mul_left_comm _ _ _
    _ = d.coefficient * 2 ^ 1075 := by rw [Nat.pow_succ 2 1074, Nat.mul_comm 2]
    _ < 2 ^ (d.coefficient.log2 + 1) * 2 ^ 1075 :=
        Nat.mul_lt_mul_of_pos_right hshort (Nat.two_pow_pos _)
    _ = 2 ^ (d.coefficient.log2 + 1 + 1075) := (Nat.pow_add _ _ _).symm
    _ ≤ 2 ^ (3 * p) := Nat.pow_le_pow_right (by decide) (by omega)
    _ = 8 ^ p := Nat.pow_mul 2 3 p
    _ ≤ 10 ^ p := Nat.pow_le_pow_left (by decide) p

/-- What is settled before rounding is settled as rounding would. -/
theorem toMagnitude_eq_rounded (d : Decimal) : d.toMagnitude = d.rounded := by
  unfold toMagnitude
  by_cases hc : d.coefficient = 0
  · have hd : d = ⟨0, d.exponent⟩ := by rw [← hc]
    rw [if_pos hc, hd, rounded_zero]
  · rw [if_neg hc]
    by_cases hlarge : 309 ≤ d.exponent
    · rw [if_pos hlarge, rounded_of_large hc hlarge]
    · rw [if_neg hlarge]
      by_cases hsmall : d.coefficient.log2 + 1 + 3 * d.exponent ≤ -1075
      · rw [if_pos hsmall, rounded_of_small hsmall]
      · rw [if_neg hsmall]

/-- The smallest coefficient is worth as much. -/
theorem trimmed_toMagnitude (d : Decimal) : d.trimmed.toMagnitude = d.toMagnitude := by
  rw [toMagnitude_eq_rounded, toMagnitude_eq_rounded, trimmed, stripZeros_rounded]

theorem toMagnitude_shift (c k : Nat) :
    (⟨c * 10 ^ k, 0⟩ : Decimal).toMagnitude = (⟨c, k⟩ : Decimal).toMagnitude := by
  rw [toMagnitude_eq_rounded, toMagnitude_eq_rounded, rounded_shift, Int.zero_add]

end Decimal

namespace Magnitude

-- =========================================================== printing

theorem toDecimal_toMagnitude (m : Magnitude) : m.toDecimal.toMagnitude = m := by
  have hplaces : m.toDecimal.exponent + (1074 - m.doublings : Nat) = (0 : Nat) := by
    unfold toDecimal
    dsimp only
    omega
  rw [Decimal.toMagnitude_eq_rounded, Decimal.rounded_eq _ hplaces, Nat.pow_zero, Nat.mul_one]
  refine Eq.trans ?_ m.ofQuotient_units
  have hdoublings : m.doublings - 1074 + 1074 = m.doublings + (1074 - m.doublings) := by omega
  have hpowers : 2 ^ (m.doublings - 1074) * 2 ^ 1074
      = 2 ^ m.doublings * 2 ^ (1074 - m.doublings) := by
    rw [← Nat.pow_add, ← Nat.pow_add, hdoublings]
  have hten : 5 ^ (1074 - m.doublings) * 2 ^ (1074 - m.doublings) = 10 ^ (1074 - m.doublings) := by
    rw [← Nat.mul_pow]
  have hcoefficient : m.toDecimal.coefficient
      = m.significand * 2 ^ (m.doublings - 1074) * 5 ^ (1074 - m.doublings) := rfl
  have hworth : m.toDecimal.coefficient * 2 ^ 1074 = m.units * 10 ^ (1074 - m.doublings) := by
    rw [hcoefficient, Nat.mul_right_comm, Nat.mul_assoc m.significand, hpowers, units, ← hten,
      Nat.mul_comm (5 ^ _), ← Nat.mul_assoc, ← Nat.mul_assoc]
  rw [hworth, ← ofQuotient_mul_mul m.units 1 (Nat.pow_pos (n := 1074 - m.doublings)
    (by decide : 0 < 10)), Nat.one_mul]

/-- What is taken for short digits was read back before. -/
theorem shortened?_toMagnitude {m : Magnitude} {exact d : Decimal} {length n : Nat}
    (h : m.shortened? exact length n = some d) : d.toMagnitude = m := by
  unfold shortened? at h
  dsimp only at h
  split at h
  · rename_i hbelow
    split at h
    · rename_i habove
      cases h
      exact habove.1
    · cases h
      exact hbelow
  · split at h
    · rename_i habove
      cases h
      exact habove
    · cases h

theorem shortest_toMagnitude (m : Magnitude) : m.shortest.toMagnitude = m := by
  unfold shortest
  dsimp only
  rw [Decimal.trimmed_toMagnitude]
  rcases hfound : (List.range' 1 17).findSome? (m.shortened? m.toDecimal
    (Nat.toDigits 10 m.toDecimal.coefficient).length) with _ | d
  · exact m.toDecimal_toMagnitude
  · obtain ⟨n, -, hn⟩ := List.exists_of_findSome?_eq_some hfound
    exact shortened?_toMagnitude hn

end Magnitude

end Reckoner
