/-
Rounding goes to the nearest double. What this means is said of the chain
of magnitudes alone: none of them is nearer to the quotient, and if one is
as near, the place in the chain is even. Infinity takes part as the power
of two that it stands in for, so overflow needs no words of its own. There
is exactly one such magnitude, and it is the one that rounding gives.

The chain is continued past its end, so that rounding can be looked at
before it is cut off there. A place in it is some number of whole runs and
a significand; what it is worth goes up by the spacing of its run from one
place to the next, and doubles from one run to the next.
-/
import Reckoner.Proofs.Number.Exact

namespace Reckoner

/-- Rounding goes down up to the half, and up from it on; the half itself
goes to the even side. -/
theorem roundHalfEven_cases (n d : Nat) :
    roundHalfEven n d = n / d ∧ (2 * (n % d) < d ∨ 2 * (n % d) = d ∧ n / d % 2 = 0) ∨
      roundHalfEven n d = n / d + 1 ∧ (d < 2 * (n % d) ∨ 2 * (n % d) = d ∧ n / d % 2 = 1) := by
  unfold roundHalfEven
  dsimp only
  split <;> omega

namespace Magnitude

-- ========================================================== the chain

/-- What a place in the chain is worth. -/
def worth (rank : Nat) : Nat :=
  (if rank < 2 ^ 52 then rank else 2 ^ 52 + rank % 2 ^ 52) * 2 ^ (rank / 2 ^ 52 - 1)

theorem units_eq_worth (m : Magnitude) : m.units = worth m.rank := rfl

/-- A significand behind so many runs. Only the first significands of all
are shorter than the others, and the end of a run is the start of the
next. -/
theorem worth_run {k f : Nat} (hlow : k = 0 ∨ 2 ^ 52 ≤ f) (hhigh : f ≤ 2 ^ 53) :
    worth (k * 2 ^ 52 + f) = f * 2 ^ k := by
  unfold worth
  rcases Nat.lt_or_ge f (2 ^ 52) with hshort | hfull
  · obtain rfl : k = 0 := by omega
    have hdoublings : (0 * 2 ^ 52 + f) / 2 ^ 52 - 1 = 0 := by omega
    rw [if_pos (by omega), hdoublings, Nat.zero_mul, Nat.zero_add]
  · rw [if_neg (by omega)]
    rcases Nat.lt_or_ge f (2 ^ 53) with hinside | hend
    · have hdoublings : (k * 2 ^ 52 + f) / 2 ^ 52 - 1 = k := by omega
      have hsignificand : 2 ^ 52 + (k * 2 ^ 52 + f) % 2 ^ 52 = f := by omega
      rw [hdoublings, hsignificand]
    · obtain rfl : f = 2 ^ 53 := by omega
      have hdoublings : (k * 2 ^ 52 + 2 ^ 53) / 2 ^ 52 - 1 = k + 1 := by omega
      have hsignificand : 2 ^ 52 + (k * 2 ^ 52 + 2 ^ 53) % 2 ^ 52 = 2 ^ 52 := by omega
      rw [hdoublings, hsignificand, Nat.pow_succ 2 k, Nat.mul_comm (2 ^ k), ← Nat.mul_assoc]

/-- From one place to the next it is the spacing of the run. -/
theorem worth_succ (rank : Nat) : worth (rank + 1) = worth rank + 2 ^ (rank / 2 ^ 52 - 1) := by
  obtain ⟨k, hk⟩ : ∃ k, k = rank / 2 ^ 52 - 1 := ⟨_, rfl⟩
  obtain ⟨f, hf⟩ : ∃ f, rank = k * 2 ^ 52 + f := ⟨rank - k * 2 ^ 52, by omega⟩
  have hlow : k = 0 ∨ 2 ^ 52 ≤ f := by omega
  have hhigh : f < 2 ^ 53 := by omega
  have hnext : k = 0 ∨ 2 ^ 52 ≤ f + 1 := by omega
  rw [← hk, hf, Nat.add_assoc, worth_run hnext hhigh, worth_run hlow (Nat.le_of_lt hhigh),
    Nat.add_mul, Nat.one_mul]

theorem worth_lt {a b : Nat} (h : a < b) : worth a < worth b := by
  induction b with
  | zero => omega
  | succ b ih =>
    have hstep := worth_succ b
    have hgap := Nat.two_pow_pos (b / 2 ^ 52 - 1)
    rcases Nat.lt_or_ge a b with hlt | hge
    · have := ih hlt
      omega
    · obtain rfl : a = b := by omega
      omega

theorem worth_le {a b : Nat} (h : a ≤ b) : worth a ≤ worth b := by
  rcases Nat.lt_or_ge a b with hlt | hge
  · exact Nat.le_of_lt (worth_lt hlt)
  · exact Nat.le_of_eq (congrArg worth (Nat.le_antisymm h hge))

theorem units_le_infinity (m : Magnitude) : m.units ≤ infinity.units := by
  rw [units_eq_worth, units_eq_worth, rank_infinity]
  exact worth_le m.rank_le

-- ========================================================= being nearest

/-- How far a magnitude is from `n / d` units, counted in parts of a unit
of which there are `d`. -/
def distance (m : Magnitude) (n d : Nat) : Nat := (m.units * d - n) + (n - m.units * d)

/-- The magnitude is the one nearest to `n / d` units: no other is nearer,
and if another is as near, this one has the even place. -/
structure Nearest (m : Magnitude) (n d : Nat) : Prop where
  closest : ∀ m' : Magnitude, m.distance n d ≤ m'.distance n d
  even : ∀ m' : Magnitude, m' ≠ m → m'.distance n d = m.distance n d → m.rank % 2 = 0

/-- Two magnitudes that are both nearest have an even place, and another
would be between them. -/
theorem Nearest.unique {m m' : Magnitude} {n d : Nat} (hd : 0 < d) (h : m.Nearest n d)
    (h' : m'.Nearest n d) : m = m' := by
  suffices ∀ a b : Magnitude, a.Nearest n d → b.Nearest n d → ¬ a.rank < b.rank by
    have hle := this m m' h h'
    have hge := this m' m h' h
    exact ext (by omega)
  intro a b ha hb hlt
  have hne : b ≠ a := fun heq => by rw [heq] at hlt; exact Nat.lt_irrefl _ hlt
  have hsame : b.distance n d = a.distance n d := Nat.le_antisymm (hb.closest a) (ha.closest b)
  have heven := ha.even b hne hsame
  have heven' := hb.even a hne.symm hsame.symm
  have hbetween : a.rank + 1 ≤ 2047 * 2 ^ 52 := by
    have := b.rank_le
    omega
  have hlow : a.units * d < worth (a.rank + 1) * d :=
    Nat.mul_lt_mul_of_pos_right (worth_lt (Nat.lt_succ_self _)) hd
  have hhigh : worth (a.rank + 1) * d < b.units * d :=
    Nat.mul_lt_mul_of_pos_right (worth_lt (by omega)) hd
  have hclosest : a.distance n d ≤ _ := ha.closest ⟨a.rank + 1, hbetween⟩
  have hunits : (⟨a.rank + 1, hbetween⟩ : Magnitude).units = worth (a.rank + 1) := rfl
  unfold distance at hsame hclosest
  rw [hunits] at hclosest
  omega

-- ============================================== rounding before the end

/-- The place that rounding goes to in the chain without an end. -/
def roundedRank (n d : Nat) : Nat :=
  spacing (n / d) * 2 ^ 52 + roundHalfEven n (d * 2 ^ spacing (n / d))

theorem rank_ofQuotient (n d : Nat) :
    (ofQuotient n d).rank = min (roundedRank n d) (2047 * 2 ^ 52) := rfl

theorem spacing_eq_zero_or (q : Nat) : spacing q = 0 ∨ 2 ^ 52 ≤ q / 2 ^ spacing q := by
  unfold spacing
  rcases Nat.lt_or_ge q.log2 53 with hshort | hlong
  · exact .inl (by omega)
  · have hq : q ≠ 0 := by
      rintro rfl
      simp at hlong
    refine .inr ((Nat.le_div_iff_mul_le (Nat.two_pow_pos _)).2 ?_)
    rw [← Nat.pow_add, Nat.add_sub_cancel' (by omega)]
    exact Nat.log2_self_le hq

/-- A number that is longer than a significand lies where the spacing is
wider. -/
theorem spacing_pos {q : Nat} (h : 2 ^ 53 ≤ q) : 1 ≤ spacing q := by
  have hlog := (Nat.le_log2 (by omega : q ≠ 0)).2 h
  unfold spacing
  omega

theorem div_spacing_lt (q : Nat) : q / 2 ^ spacing q < 2 ^ 53 := by
  refine Nat.div_lt_of_lt_mul ?_
  rw [← Nat.pow_add]
  exact Nat.lt_of_lt_of_le Nat.lt_log2_self (Nat.pow_le_pow_right (by decide)
    (by unfold spacing; omega))

/-- The quotient lies between the place below it and the next one. -/
theorem exists_floor (n d : Nat) : ∃ k f, spacing (n / d) = k ∧ n / (d * 2 ^ k) = f ∧
    worth (k * 2 ^ 52 + f) * d = f * (d * 2 ^ k) ∧
    worth (k * 2 ^ 52 + f + 1) * d = f * (d * 2 ^ k) + d * 2 ^ k := by
  have hlow := spacing_eq_zero_or (n / d)
  have hhigh := div_spacing_lt (n / d)
  rw [Nat.div_div_eq_div_mul] at hlow hhigh
  refine ⟨_, _, rfl, rfl, ?_, ?_⟩
  · rw [worth_run hlow (Nat.le_of_lt hhigh), Nat.mul_assoc, Nat.mul_comm (2 ^ _) d]
  · rw [Nat.add_assoc, worth_run (by omega) hhigh, Nat.mul_assoc, Nat.mul_comm (2 ^ _) d]
    exact Nat.succ_mul _ _

section Neighbours

variable {m : Magnitude} {n d rank rest step : Nat}

/-- The place below is the nearest one up to the middle of the step to the
next, and in the middle if it is even. -/
theorem nearest_lower (hd : 0 < d) (hn : n = worth rank * d + rest)
    (hstep : worth (rank + 1) * d = worth rank * d + step) (hm : m.rank = rank)
    (hhalf : 2 * rest < step ∨ 2 * rest = step ∧ rank % 2 = 0) : m.Nearest n d := by
  have hunits : m.units * d = worth rank * d := by rw [units_eq_worth, hm]
  have hother (m' : Magnitude) (hne : m' ≠ m) :
      m'.units * d < worth rank * d ∨ worth rank * d + step ≤ m'.units * d := by
    rcases Nat.lt_trichotomy m'.rank rank with hlt | heq | hgt
    · exact .inl (Nat.mul_lt_mul_of_pos_right (worth_lt hlt) hd)
    · exact absurd (ext (heq.trans hm.symm)) hne
    · rw [← hstep]
      exact .inr (Nat.mul_le_mul_right d (worth_le hgt))
  refine ⟨fun m' => ?_, fun m' hne hsame => ?_⟩
  · by_cases hne : m' = m
    · exact Nat.le_of_eq (congrArg (distance · n d) hne.symm)
    · have := hother m' hne
      unfold distance
      omega
  · have := hother m' hne
    unfold distance at hsame
    omega

/-- The place above is the nearest one from the middle of the step on, and
in the middle if it is even. -/
theorem nearest_upper (hd : 0 < d) (hn : n = worth rank * d + rest)
    (hstep : worth (rank + 1) * d = worth rank * d + step) (hm : m.rank = rank + 1)
    (hrest : rest < step) (hhalf : step < 2 * rest ∨ 2 * rest = step ∧ rank % 2 = 1) :
    m.Nearest n d := by
  have hunits : m.units * d = worth rank * d + step := by rw [units_eq_worth, hm, hstep]
  have hother (m' : Magnitude) (hne : m' ≠ m) :
      m'.units * d ≤ worth rank * d ∨ worth rank * d + step < m'.units * d := by
    rcases Nat.lt_trichotomy m'.rank (rank + 1) with hlt | heq | hgt
    · exact .inl (Nat.mul_le_mul_right d (worth_le (Nat.le_of_lt_succ hlt)))
    · exact absurd (ext (heq.trans hm.symm)) hne
    · rw [← hstep]
      exact .inr (Nat.mul_lt_mul_of_pos_right (worth_lt hgt) hd)
  refine ⟨fun m' => ?_, fun m' hne hsame => ?_⟩
  · by_cases hne : m' = m
    · exact Nat.le_of_eq (congrArg (distance · n d) hne.symm)
    · have := hother m' hne
      unfold distance
      omega
  · have := hother m' hne
    unfold distance at hsame
    omega

/-- From the end of the chain on, infinity is the nearest. -/
theorem nearest_infinity (h : infinity.units * d ≤ n) : infinity.Nearest n d := by
  refine ⟨fun m' => ?_, fun _ _ _ => rfl⟩
  have hle := Nat.mul_le_mul_right d m'.units_le_infinity
  unfold distance
  omega

end Neighbours

/-- Rounding gives the nearest magnitude. -/
theorem ofQuotient_nearest (n : Nat) {d : Nat} (hd : 0 < d) : (ofQuotient n d).Nearest n d := by
  obtain ⟨k, f, hk, hf, hfloor, hnext⟩ := exists_floor n d
  have hparity : (k * 2 ^ 52 + f) % 2 = f % 2 := by omega
  have hrank : (ofQuotient n d).rank
      = min (k * 2 ^ 52 + roundHalfEven n (d * 2 ^ k)) (2047 * 2 ^ 52) := by
    rw [← hk]
    rfl
  have hrest := Nat.mod_lt n (Nat.mul_pos hd (Nat.two_pow_pos k))
  have hn := Nat.div_add_mod' n (d * 2 ^ k)
  rw [hf, ← hfloor] at hn
  rw [← hfloor] at hnext
  rcases Nat.lt_or_ge (k * 2 ^ 52 + f) (2047 * 2 ^ 52) with hinside | hend
  · rcases roundHalfEven_cases n (d * 2 ^ k) with ⟨hdown, hhalf⟩ | ⟨hup, hhalf⟩
    · rw [hf, ← hparity] at hhalf
      rw [hdown, hf, Nat.min_eq_left (Nat.le_of_lt hinside)] at hrank
      exact nearest_lower hd hn.symm hnext hrank hhalf
    · rw [hf, ← hparity] at hhalf
      rw [hup, hf, ← Nat.add_assoc, Nat.min_eq_left hinside] at hrank
      exact nearest_upper hd hn.symm hnext hrank hrest hhalf
  · have hbeyond : 2047 * 2 ^ 52 ≤ k * 2 ^ 52 + roundHalfEven n (d * 2 ^ k) := by
      rw [← hf] at hend
      exact Nat.le_trans hend (Nat.add_le_add_left (roundHalfEven_bounds _ _).1 _)
    have hinfinite : ofQuotient n d = infinity := ext (hrank.trans (Nat.min_eq_right hbeyond))
    have hend : infinity.units * d ≤ worth (k * 2 ^ 52 + f) * d := by
      rw [units_eq_worth, rank_infinity]
      exact Nat.mul_le_mul_right d (worth_le hend)
    rw [hinfinite]
    exact nearest_infinity (Nat.le_trans hend (Nat.le.intro hn))

theorem ofQuotient_eq_iff {m : Magnitude} {n d : Nat} (hd : 0 < d) :
    ofQuotient n d = m ↔ m.Nearest n d := by
  constructor
  · rintro rfl
    exact ofQuotient_nearest n hd
  · exact (ofQuotient_nearest n hd).unique hd

-- ================================================ what rounding leaves

/-- The first place of a run is worth a power of two. -/
theorem worth_first (k : Nat) : worth ((k + 1) * 2 ^ 52) = 2 ^ (52 + k) := by
  rw [Nat.add_mul, Nat.one_mul, worth_run (.inr (Nat.le_refl _)) (by decide), Nat.pow_add]

theorem two_pow_le_infinity {k : Nat} (h : k ≤ 2098) : 2 ^ k ≤ infinity.units := by
  calc 2 ^ k
      ≤ 2 ^ (52 + 2046) := Nat.pow_le_pow_right (by decide) h
    _ = worth ((2046 + 1) * 2 ^ 52) := (worth_first 2046).symm
    _ = infinity.units := (units_eq_worth infinity).symm

/-- What has no more bits than a significand is worth a place. -/
theorem units_ofQuotient {n : Nat} (hbits : 2 ^ spacing n ∣ n) (hend : n ≤ infinity.units) :
    (ofQuotient n 1).units = n := by
  have hn := Nat.div_mul_cancel hbits
  have hround := roundHalfEven_mul (n / 2 ^ spacing n) (2 ^ spacing n) (Nat.two_pow_pos _)
  have hworth := worth_run (spacing_eq_zero_or n) (Nat.le_of_lt (div_spacing_lt n))
  rw [hn] at hround hworth
  have hrank : roundedRank n 1 = spacing n * 2 ^ 52 + n / 2 ^ spacing n := by
    rw [roundedRank, Nat.div_one, Nat.one_mul, hround]
  have hinside : spacing n * 2 ^ 52 + n / 2 ^ spacing n ≤ 2047 * 2 ^ 52 := by
    refine Nat.le_of_not_lt fun hlt => ?_
    have hbeyond := worth_lt hlt
    rw [hworth, ← rank_infinity, ← units_eq_worth] at hbeyond
    exact Nat.not_lt_of_le hend hbeyond
  rw [units_eq_worth, rank_ofQuotient, hrank, Nat.min_eq_left hinside, hworth]

/-- Less than half a step behind a place does not matter. -/
theorem ofQuotient_units_add {m : Magnitude} {more : Nat} (h : 2 * more < 2 ^ m.doublings) :
    ofQuotient (m.units + more) 1 = m := by
  refine (ofQuotient_eq_iff Nat.one_pos).2 (nearest_lower Nat.one_pos ?_ ?_ rfl (.inl h))
  · rw [Nat.mul_one, units_eq_worth]
  · rw [Nat.mul_one, Nat.mul_one, worth_succ, doublings]

-- ============================================= numbers with more behind

/-- Bits behind a number do not move its first one. -/
theorem log2_shifted {a t more : Nat} (ha : a ≠ 0) (hmore : more < 2 ^ t) :
    (a * 2 ^ t + more).log2 = a.log2 + t := by
  have hlow := Nat.mul_le_mul_right (2 ^ t) (Nat.log2_self_le ha)
  have hhigh := Nat.mul_le_mul_right (2 ^ t) (Nat.succ_le_of_lt (Nat.lt_log2_self (n := a)))
  rw [← Nat.pow_add] at hlow hhigh
  rw [Nat.succ_mul] at hhigh
  have hpositive := Nat.two_pow_pos (a.log2 + t)
  rw [Nat.log2_eq_iff (by omega), Nat.add_right_comm]
  omega

theorem spacing_shifted {a t more : Nat} (ha : 2 ^ 52 ≤ a) (hmore : more < 2 ^ t) :
    spacing (a * 2 ^ t + more) = t + spacing a := by
  have hnonzero : a ≠ 0 := by omega
  have hlong := (Nat.le_log2 hnonzero).2 ha
  unfold spacing
  rw [log2_shifted hnonzero hmore]
  omega

/-- A number is rounded in its own run, whatever is behind it. -/
theorem roundedRank_shifted {a t more : Nat} (ha : 2 ^ 52 ≤ a) (hmore : more < 2 ^ t) :
    roundedRank (a * 2 ^ t + more) 1
      = (t + spacing a) * 2 ^ 52 + roundHalfEven (a * 2 ^ t + more) (2 ^ spacing a * 2 ^ t) := by
  rw [roundedRank, Nat.div_one, Nat.one_mul, spacing_shifted ha hmore, Nat.add_comm t, Nat.pow_add]

/-- A number with zeros behind it is rounded like the number, runs further
on. -/
theorem roundedRank_mul_two_pow {a : Nat} (ha : 2 ^ 52 ≤ a) (t : Nat) :
    roundedRank (a * 2 ^ t) 1 = t * 2 ^ 52 + roundedRank a 1 := by
  have hshifted := roundedRank_shifted ha (Nat.two_pow_pos t)
  rw [Nat.add_zero, roundHalfEven_mul_mul _ _ (Nat.two_pow_pos t)] at hshifted
  rw [hshifted, Nat.add_mul, Nat.add_assoc, roundedRank, Nat.div_one, Nat.one_mul]

/-- Rounded once more behind the zeros, it is the same. -/
theorem ofQuotient_units_mul {a : Nat} (ha : 2 ^ 52 ≤ a) (t : Nat) :
    ofQuotient ((ofQuotient a 1).units * 2 ^ t) 1 = ofQuotient (a * 2 ^ t) 1 := by
  have hfull : 2 ^ 52 ≤ a / 2 ^ spacing a := by
    rcases spacing_eq_zero_or a with hzero | hfull
    · rwa [hzero, Nat.pow_zero, Nat.div_one]
    · exact hfull
  have hround := Nat.le_trans hfull (roundHalfEven_bounds a (2 ^ spacing a)).1
  have hrank : 1 * 2 ^ 52 ≤ (ofQuotient a 1).rank := by
    rw [rank_ofQuotient, roundedRank, Nat.div_one, Nat.one_mul (2 ^ spacing a)]
    omega
  have hlong : 2 ^ 52 ≤ (ofQuotient a 1).units := by
    rw [units_eq_worth]
    exact Nat.le_trans (Nat.le_of_eq (worth_first 0).symm) (worth_le hrank)
  have hsame := congrArg rank (ofQuotient_units (ofQuotient a 1))
  ext
  rw [rank_ofQuotient, rank_ofQuotient, roundedRank_mul_two_pow hlong, roundedRank_mul_two_pow ha]
  rw [rank_ofQuotient _ 1, rank_ofQuotient a 1] at hsame
  omega

-- ============================================================== ties

/-- Further up there is a magnitude that is as near. -/
def TiesAbove (m : Magnitude) (n d : Nat) : Prop :=
  ∃ above : Magnitude, m.rank < above.rank ∧ above.distance n d = m.distance n d

/-- A little more, and that one is nearer. -/
theorem TiesAbove.not_nearest {m : Magnitude} {n n' d : Nat} (hd : 0 < d) (h : m.TiesAbove n d)
    (hmore : n < n') : ¬ m.Nearest n' d := by
  obtain ⟨above, hrank, hsame⟩ := h
  intro hnearest
  have hclosest := hnearest.closest above
  have hunits : m.units * d < above.units * d := Nat.mul_lt_mul_of_pos_right (worth_lt hrank) hd
  unfold distance at hsame hclosest
  omega

/-- Less than a step behind a number counts only where the number is a
tie that goes down. -/
theorem roundHalfEven_tail (a : Nat) {c d more : Nat} (hd : d % 2 = 0) (hmore : more < c) :
    roundHalfEven (a * c + more) (d * c) = roundHalfEven a d ∨
      2 * (a % d) = d ∧ roundHalfEven a d = a / d ∧
        roundHalfEven (a * c + more) (d * c) = a / d + 1 := by
  have hc : 0 < c := Nat.zero_lt_of_lt hmore
  have hfront : (a * c + more) / c = a := by
    rw [Nat.add_comm, Nat.add_mul_div_right _ _ hc, Nat.div_eq_of_lt hmore, Nat.zero_add]
  have hdiv : (a * c + more) / (d * c) = a / d := by
    rw [Nat.mul_comm d, ← Nat.div_div_eq_div_mul, hfront]
  have hmod : (a * c + more) % (d * c) = more + c * (a % d) := by
    rw [Nat.mul_comm d, Nat.mod_mul, hfront, Nat.add_comm (a * c), Nat.add_mul_mod_self_right,
      Nat.mod_eq_of_lt hmore]
  have hshort := roundHalfEven_cases a d
  have hfull := roundHalfEven_cases (a * c + more) (d * c)
  rw [hdiv, hmod, Nat.mul_comm d c] at hfull
  rw [Nat.mul_comm d c]
  rcases Nat.lt_trichotomy (2 * (a % d)) d with hlow | hhalf | hhigh
  · have hstep : c * (2 * (a % d) + 2) ≤ c * d := Nat.mul_le_mul_left c (by omega)
    rw [Nat.mul_add, Nat.mul_left_comm] at hstep
    omega
  · have hmiddle := congrArg (c * ·) hhalf
    rw [Nat.mul_left_comm] at hmiddle
    omega
  · have hstep : c * (d + 1) ≤ c * (2 * (a % d)) := Nat.mul_le_mul_left c hhigh
    rw [Nat.mul_add, Nat.mul_left_comm] at hstep
    omega

/-- In the middle between two places there is a tie. -/
theorem tiesAbove_middle {m : Magnitude} {k f n : Nat} (hlow : k = 0 ∨ 2 ^ 52 ≤ f)
    (hhigh : f < 2 ^ 53) (hrank : m.rank = k * 2 ^ 52 + f) (hend : m.rank < 2047 * 2 ^ 52)
    (hmiddle : 2 * n = 2 * (f * 2 ^ k) + 2 ^ k) : m.TiesAbove n 1 := by
  have hunits : m.units = f * 2 ^ k := by
    rw [units_eq_worth, hrank, worth_run hlow (Nat.le_of_lt hhigh)]
  have habove : units ⟨m.rank + 1, hend⟩ = f * 2 ^ k + 2 ^ k := by
    show worth (m.rank + 1) = _
    rw [hrank, Nat.add_assoc, worth_run (by omega) hhigh, Nat.succ_mul]
  refine ⟨⟨m.rank + 1, hend⟩, Nat.lt_succ_self _, ?_⟩
  unfold distance
  rw [hunits, habove]
  omega

/-- A number of more than 53 bits with less than its last bit behind it
is nearest to the same magnitude, unless there is a tie and it goes down. -/
theorem Nearest.shifted {m : Magnitude} {a t more : Nat} (ha : 2 ^ 53 ≤ a) (hmore : more < 2 ^ t)
    (h : m.Nearest (a * 2 ^ t) 1) (htie : ¬ m.TiesAbove (a * 2 ^ t) 1) :
    m.Nearest (a * 2 ^ t + more) 1 := by
  have hlong : 2 ^ 52 ≤ a := by omega
  have hrun := spacing_pos ha
  have heven : 2 ^ spacing a % 2 = 0 := by
    rw [← Nat.sub_add_cancel hrun, Nat.pow_succ, Nat.mul_mod_left]
  have hfull := (spacing_eq_zero_or a).resolve_left (by omega)
  have hrank : m.rank = min ((t + spacing a) * 2 ^ 52 + roundHalfEven a (2 ^ spacing a))
      (2047 * 2 ^ 52) := by
    rw [← (ofQuotient_eq_iff Nat.one_pos).2 h, rank_ofQuotient, roundedRank_mul_two_pow hlong,
      roundedRank, Nat.div_one, Nat.one_mul, ← Nat.add_assoc, Nat.add_mul]
  refine (ofQuotient_eq_iff Nat.one_pos).1 (ext ?_)
  rw [rank_ofQuotient, roundedRank_shifted hlong hmore]
  rcases roundHalfEven_tail a heven hmore with hsame | ⟨hhalf, hdown, hup⟩
  · rw [hsame, hrank]
  · rw [hdown] at hrank
    rw [hup]
    have hmiddle : 2 * (a * 2 ^ t)
        = 2 * (a / 2 ^ spacing a * 2 ^ (t + spacing a)) + 2 ^ (t + spacing a) := by
      calc 2 * (a * 2 ^ t)
          = 2 * ((a / 2 ^ spacing a * 2 ^ spacing a + a % 2 ^ spacing a) * 2 ^ t) := by
            rw [Nat.div_add_mod']
        _ = 2 * (a / 2 ^ spacing a * 2 ^ spacing a) * 2 ^ t + 2 ^ spacing a * 2 ^ t := by
            rw [← Nat.mul_assoc, Nat.mul_add, hhalf, Nat.add_mul]
        _ = 2 * (a / 2 ^ spacing a * 2 ^ (t + spacing a)) + 2 ^ (t + spacing a) := by
            rw [Nat.mul_assoc, Nat.mul_assoc, ← Nat.pow_add, Nat.add_comm (spacing a)]
    rcases Nat.lt_or_ge ((t + spacing a) * 2 ^ 52 + a / 2 ^ spacing a) (2047 * 2 ^ 52)
      with hinside | hend
    · rw [Nat.min_eq_left (Nat.le_of_lt hinside)] at hrank
      rw [← hrank] at hinside
      exact absurd (tiesAbove_middle (.inr hfull) (div_spacing_lt a) hrank hinside hmiddle) htie
    · rw [hrank, ← Nat.add_assoc, Nat.min_eq_right hend,
        Nat.min_eq_right (Nat.le_add_right_of_le hend)]

end Magnitude

end Reckoner
