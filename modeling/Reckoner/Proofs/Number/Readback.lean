/-
What a number is worth as text, read as a number again. Both layouts are
literals. The plain one has no exponent. The scientific one has the first
digit before the point, an exponent that makes up for that, and a sign in
front of the exponent either way; it denotes the decimal itself. In both
cases the decimal is the shortest one that reads back, so the number comes
back, but for the sign of a zero, which is not written.

The digits of an exponent are not counted to their end by the reader, so
the exponent of a decimal that reads back has to be within its reach. A
decimal lies between two powers of ten, which its exponent tells; above
10^309 it would be read as infinity, and below 10^-324 as zero.
-/
import Reckoner.Proofs.Number.Bytewise
import Reckoner.Proofs.Number.Literal

namespace Reckoner

namespace Decimal

-- =========================================================== the digits

/-- A coefficient has as many digits as powers of ten fit into it. -/
theorem coefficient_bounds (d : Decimal) (h : d.coefficient ≠ 0) :
    10 ^ (d.digits.length - 1) ≤ d.coefficient ∧ d.coefficient < 10 ^ d.digits.length := by
  have hpositive : 0 < d.digits.length := Nat.length_toDigits_pos
  constructor
  · rcases Nat.eq_zero_or_pos (d.digits.length - 1) with hone | hmore
    · rw [hone]
      exact Nat.pos_of_ne_zero h
    · refine Nat.le_of_not_lt fun hlt => ?_
      have hle := (Nat.length_toDigits_le_iff (by decide) hmore).2 hlt
      unfold digits at hmore hle
      omega
  · exact (Nat.length_toDigits_le_iff (by decide) hpositive).1 (Nat.le_refl _)

/-- From 10^309 on a decimal is infinite. -/
theorem toMagnitude_of_large {d : Decimal} (hd : d.coefficient ≠ 0) (h : 309 ≤ d.leadingExponent) :
    d.toMagnitude = .infinity := by
  obtain ⟨p, m, hm⟩ : ∃ p m : Nat, d.exponent + p = m :=
    ⟨(-d.exponent).toNat, d.exponent.toNat, by omega⟩
  have hlength : 309 + p ≤ d.digits.length - 1 + m := by
    unfold leadingExponent at h
    omega
  have hpast : 2 ^ 1024 ≤ 10 ^ 309 := by decide +kernel
  rw [toMagnitude_eq_rounded, rounded_eq d hm]
  apply Magnitude.ofQuotient_eq_infinity
  refine (Nat.le_div_iff_mul_le (Nat.pow_pos (by decide))).2 ?_
  calc 2 ^ 2098 * 10 ^ p
      = 2 ^ 1024 * 10 ^ p * 2 ^ 1074 := by
        rw [Nat.mul_right_comm, ← Nat.pow_add 2 1024 1074]
    _ ≤ 10 ^ 309 * 10 ^ p * 2 ^ 1074 := Nat.mul_le_mul_right _ (Nat.mul_le_mul_right _ hpast)
    _ = 10 ^ (309 + p) * 2 ^ 1074 := by rw [Nat.pow_add 10 309 p]
    _ ≤ 10 ^ (d.digits.length - 1 + m) * 2 ^ 1074 :=
        Nat.mul_le_mul_right _ (Nat.pow_le_pow_right (by decide) hlength)
    _ = 10 ^ (d.digits.length - 1) * 10 ^ m * 2 ^ 1074 := by rw [Nat.pow_add 10 _ m]
    _ ≤ d.coefficient * 10 ^ m * 2 ^ 1074 :=
        Nat.mul_le_mul_right _ (Nat.mul_le_mul_right _ (d.coefficient_bounds hd).1)

/-- Below 10^-324 a decimal is zero. -/
theorem toMagnitude_of_small {d : Decimal} (hd : d.coefficient ≠ 0)
    (h : d.leadingExponent < -324) : d.toMagnitude = .zero := by
  obtain ⟨p, m, hm⟩ : ∃ p m : Nat, d.exponent + p = m :=
    ⟨(-d.exponent).toNat, d.exponent.toNat, by omega⟩
  have hlength : d.digits.length + m + 324 ≤ p := by
    unfold leadingExponent at h
    omega
  have hpast : 2 ^ 1075 ≤ 10 ^ 324 := by decide +kernel
  rw [toMagnitude_eq_rounded, rounded_eq d hm]
  apply Magnitude.ofQuotient_eq_zero
  calc 2 * (d.coefficient * 10 ^ m * 2 ^ 1074)
      = d.coefficient * 10 ^ m * 2 ^ 1075 := by
        rw [Nat.mul_left_comm, Nat.mul_comm 2, ← Nat.pow_succ 2 1074]
    _ < 10 ^ d.digits.length * 10 ^ m * 2 ^ 1075 :=
        Nat.mul_lt_mul_of_pos_right (Nat.mul_lt_mul_of_pos_right (d.coefficient_bounds hd).2
          (Nat.pow_pos (by decide))) (Nat.two_pow_pos 1075)
    _ = 10 ^ (d.digits.length + m) * 2 ^ 1075 := by rw [Nat.pow_add 10 _ m]
    _ ≤ 10 ^ (d.digits.length + m) * 10 ^ 324 := Nat.mul_le_mul_left _ hpast
    _ = 10 ^ (d.digits.length + m + 324) := (Nat.pow_add 10 _ 324).symm
    _ ≤ 10 ^ p := Nat.pow_le_pow_right (by decide) hlength

/-- The exponent of a decimal that reads back is within reach. -/
theorem leadingExponent_bounds {d : Decimal} (hzero : d.toMagnitude ≠ .zero)
    (hinfinite : d.toMagnitude ≠ .infinity) : d.leadingExponent.natAbs < exponentReach := by
  have hd : d.coefficient ≠ 0 := by
    intro hd
    rw [toMagnitude, if_pos hd] at hzero
    exact hzero rfl
  have hlow : ¬ d.leadingExponent < -324 := fun h => hzero (toMagnitude_of_small hd h)
  have hhigh : ¬ 309 ≤ d.leadingExponent := fun h => hinfinite (toMagnitude_of_large hd h)
  unfold exponentReach
  omega

-- ========================================================== the layouts

open Numeric

/-- Digits with a point behind them are a fixed literal. -/
theorem fixed_of_pointed {cs whole places : List Char} (h : Pointed cs whole places) :
    Fixed cs whole places := by
  cases h with
  | digits nonempty digits => exact .digits nonempty digits
  | point nonempty digits more => exact .point (.inl nonempty) digits more

/-- The plain layout spells a decimal that is worth as much. -/
theorem plain_literal (d : Decimal) :
    ∃ d' : Decimal, Literal d.plain d' ∧ d'.toMagnitude = d.toMagnitude := by
  obtain ⟨whole, places, hform, hworth⟩ := d.plain_pointed
  have hliteral := Literal.scaled (fixed_of_pointed hform) .none
  rw [List.append_nil, Int.zero_sub] at hliteral
  exact ⟨_, hliteral, hworth⟩

/-- The digits with a point behind the first of them. -/
theorem mantissa_fixed (d : Decimal) : ∃ whole places, Fixed d.mantissa whole places ∧
    whole ++ places = d.digits ∧ places.length + 1 = d.digits.length := by
  have hdigits := isDigit_of_mem_digits (d := d)
  have hnonempty : d.digits ≠ [] := Nat.toDigits_ne_nil
  unfold mantissa
  split
  · next first second rest heq =>
    rw [heq] at hdigits ⊢
    have hfirst : ∀ c ∈ [first], c.isDigit = true := by
      intro c hc
      exact hdigits c (List.mem_cons.2 (.inl (List.mem_singleton.1 hc)))
    exact ⟨[first], second :: rest, .point (.inl (List.cons_ne_nil _ _)) hfirst
      fun c hc => hdigits c (List.mem_cons_of_mem first hc), rfl, rfl⟩
  · next hshort =>
    refine ⟨d.digits, [], .digits hnonempty hdigits, List.append_nil _, ?_⟩
    match hds : d.digits with
    | [] => exact absurd hds hnonempty
    | [_] => rfl
    | first :: second :: rest => exact absurd hds (hshort first second rest)

/-- The digits of an exponent within reach behind its sign. -/
theorem scale_toDigits {negative : Bool} {sign : List Char} {n : Nat} (hsign : Sign negative sign)
    (h : n < exponentReach) : Scale ('e' :: (sign ++ Nat.toDigits 10 n)) (signed negative n) := by
  have hdigits : ∀ c ∈ Nat.toDigits 10 n, c.isDigit = true :=
    fun _ hc => Nat.isDigit_of_mem_toDigits (by decide) (by decide) hc
  have hnumber : Nat.ofDigitChars 10 (Nat.toDigits 10 n) 0 = n := Nat.ofDigitChars_ten_toDigits
  have hscale := Scale.exponent (.inl rfl) hsign Nat.toDigits_ne_nil hdigits
  rwa [exponentOfDigits_of_lt (by rwa [hnumber]), hnumber] at hscale

/-- The scientific layout spells the decimal itself. -/
theorem scientific_literal {d : Decimal} (h : d.leadingExponent.natAbs < exponentReach) :
    Literal d.scientific d := by
  obtain ⟨whole, places, hfixed, hdigits, hlength⟩ := d.mantissa_fixed
  have hscale : Scale ('e' :: (if d.leadingExponent < 0 then '-' else '+') ::
      Nat.toDigits 10 d.leadingExponent.natAbs) d.leadingExponent := by
    by_cases hnegative : d.leadingExponent < 0
    · have hworth : signed true d.leadingExponent.natAbs = d.leadingExponent :=
        Int.neg_eq_comm.1 (Int.ofNat_natAbs_of_nonpos (Int.le_of_lt hnegative)).symm
      have hminus := scale_toDigits .minus h
      rw [hworth] at hminus
      rw [if_pos hnegative]
      exact hminus
    · have hworth : signed false d.leadingExponent.natAbs = d.leadingExponent :=
        Int.natAbs_of_nonneg (Int.not_lt.1 hnegative)
      have hplus := scale_toDigits .plus h
      rw [hworth] at hplus
      rw [if_neg hnegative]
      exact hplus
  have hliteral := Literal.scaled hfixed hscale
  have hexponent : d.leadingExponent - places.length = d.exponent := by
    unfold leadingExponent
    omega
  rw [hdigits, ofDigitChars_digits, hexponent] at hliteral
  exact hliteral

end Decimal

-- =============================================================== blanks

/-- A text without blanks is left as it is. -/
theorem Text.trimBlanks_eq {cs : List Char} (h : ∀ c ∈ cs, isBlank c = false) :
    trimBlanks cs = cs := by
  have hkeep (ds : List Char) (hds : ∀ c ∈ ds, isBlank c = false) : ds.dropWhile isBlank = ds := by
    cases ds with
    | nil => rfl
    | cons c ds => rw [List.dropWhile_cons_of_neg (by rw [hds c List.mem_cons_self]; decide)]
  unfold trimBlanks
  rw [hkeep cs h, hkeep _ fun c hc => h c (List.mem_reverse.1 hc), List.reverse_reverse]

namespace Numeric

/-- Nothing in a literal is blank. -/
theorem isBlank_plain {c : Char} (h : isPlain c = true) : Text.isBlank c = false :=
  of_isPlain (p := fun c => Text.isBlank c = false) h (by decide +kernel)

-- ========================================================== reading back

/-- Either layout is a literal for the magnitude. -/
theorem layout_literal {m : Magnitude} (hzero : m ≠ .zero) (hinfinite : m ≠ .infinity)
    (readable : Prop) [Decidable readable] :
    ∃ d, Literal (if readable then m.shortest.plain else m.shortest.scientific) d ∧
      d.toMagnitude = m := by
  have hworth := m.shortest_toMagnitude
  split
  · obtain ⟨d, hliteral, hd⟩ := m.shortest.plain_literal
    exact ⟨d, hliteral, hd.trans hworth⟩
  · have hreach := Decimal.leadingExponent_bounds (hworth.symm ▸ hzero) (hworth.symm ▸ hinfinite)
    exact ⟨_, Decimal.scientific_literal hreach, hworth⟩

/-- A literal with a sign is worth the number it spells. -/
theorem ofText_signed {negative : Bool} {cs : List Char} {d : Decimal} (h : Literal cs d) :
    ofText ((if negative then "-" else "") ++ String.ofList cs)
      = .signed negative d.toMagnitude := by
  have hsign : Sign negative (if negative then "-" else "").toList := by
    cases negative
    · exact .none
    · exact .minus
  have hplain : ∀ c ∈ (if negative then "-" else "").toList ++ cs, Text.isBlank c = false :=
    fun c hc => isBlank_plain ((List.mem_append.1 hc).elim (hsign.plain c) (h.plain c))
  rw [ofText, String.toList_append, String.toList_ofList, Text.trimBlanks_eq hplain]
  exact (ofTrimmed_of_numeral (.decimal hsign h d.toMagnitude_nearest)).2

/-- The text of a number is worth the number, but that both zeros are
written alike. -/
theorem ofText_toText (x : Binary64) : ofText (toText x) = if x.isZero then .zero else x := by
  cases x with
  | nan => decide
  | signed negative m =>
    by_cases hinfinite : m = .infinity
    · subst hinfinite
      cases negative <;> decide +kernel
    by_cases hzero : m = .zero
    · subst hzero
      cases negative <;> decide +kernel
    have hfinite : ¬ m.isInfinite = true := mt Magnitude.isInfinite_iff.1 hinfinite
    have hsome : ¬ m.isZero = true := mt Magnitude.isZero_iff.1 hzero
    show ofText (toText _) = if m.isZero = true then _ else _
    rw [if_neg hsome]
    unfold toText
    dsimp only
    obtain ⟨d, hliteral, hd⟩ := layout_literal hzero hinfinite
      (plainFrom.toMagnitude.rank ≤ m.rank ∧ m.rank < plainBelow.toMagnitude.rank)
    rw [if_neg hfinite, if_neg hsome, ofText_signed hliteral, hd]

theorem toText_of_isZero {x : Binary64} (h : x.isZero = true) : toText x = "0" := by
  cases x with
  | nan => cases h
  | signed negative m =>
    rw [Magnitude.isZero_iff.1 h]
    rfl

theorem equals_iff {x y : Binary64} :
    x.equals y = true ↔ x.isZero = true ∧ y.isZero = true ∨ x = y ∧ x ≠ .nan := by
  cases x <;> cases y <;> simp [Binary64.equals, Binary64.isZero]

/-- The text tells all numbers apart, but for the two zeros. -/
theorem toText_eq_iff (x y : Binary64) :
    toText x = toText y ↔ x.equals y = true ∨ x = .nan ∧ y = .nan := by
  rw [equals_iff]
  constructor
  · intro h
    have hworth := (ofText_toText x).symm.trans ((congrArg ofText h).trans (ofText_toText y))
    have hzero : Binary64.zero.isZero = true := rfl
    split at hworth
    · next hx =>
      split at hworth
      · next hy => exact .inl (.inl ⟨hx, hy⟩)
      · next hy => exact absurd (hworth ▸ hzero) hy
    · next hx =>
      split at hworth
      · exact absurd (hworth ▸ hzero) hx
      · by_cases hnan : x = .nan
        · exact .inr ⟨hnan, hworth ▸ hnan⟩
        · exact .inl (.inr ⟨hworth, hnan⟩)
  · rintro ((⟨hx, hy⟩ | ⟨rfl, -⟩) | ⟨rfl, rfl⟩)
    · rw [toText_of_isZero hx, toText_of_isZero hy]
    · rfl
    · rfl

/-- A number is got back from its text, and so two numbers that are not
equal have different texts, NaN included. -/
theorem toNumber_toText {φ : Type} [HostFunction φ] (x : Binary64) :
    (Value.text (Value.number x : Value φ).toText : Value φ).toNumber
        = (if x.isZero then .zero else x) ∧
      ∀ y : Binary64, (Value.number x : Value φ).toText = (Value.number y : Value φ).toText ↔
        x.equals y = true ∨ x = .nan ∧ y = .nan :=
  ⟨ofText_toText x, toText_eq_iff x⟩

end Numeric

end Reckoner
