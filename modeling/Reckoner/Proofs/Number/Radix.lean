/-
Whole numbers in base 16, 8 and 2. The digits are summed up in doubles, so
every step is rounded. Up to 2^53 nothing is lost. At the digit that takes
the number past it the sum is rounded to the nearest double, and from then
on it is only shifted: a further digit is less than half a step of the sum,
whatever it is. So the digits behind that one might as well be zeros, and
what the text is worth is the double nearest to the number that is kept of
it in this way.

That is the double nearest to the number itself as long as the digits that
are lost could not have decided. They could where the number that is kept
lies in the middle between two doubles and the tie goes down; there, and
nowhere else, the text is worth the double below the nearest one.

A step is one lemma about sums of doubles, and the digits go by induction.
-/
import Reckoner.Proofs.Number.Nearest
import Reckoner.Value.Coercion

namespace Reckoner

namespace Magnitude

-- ================================================ the ends of the chain

theorem isInfinite_iff {m : Magnitude} : m.isInfinite = true ↔ m = infinity := by
  unfold isInfinite
  rw [beq_iff_eq]
  exact ⟨fun h => ext h, fun h => by rw [h, rank_infinity]⟩

theorem isZero_iff {m : Magnitude} : m.isZero = true ↔ m = zero := by
  unfold isZero
  rw [beq_iff_eq]
  exact ⟨fun h => ext h, fun h => by rw [h, rank_zero]⟩

theorem ofQuotient_of_infinity_le {n : Nat} (h : infinity.units ≤ n) :
    ofQuotient n 1 = infinity :=
  (ofQuotient_eq_iff Nat.one_pos).2 (nearest_infinity (by rwa [Nat.mul_one]))

/-- A number of up to 53 bits with zeros behind it, within the chain. -/
theorem units_ofQuotient_shifted {f e : Nat} (hf : f < 2 ^ 53) (he : e ≤ 2045) :
    (ofQuotient (f * 2 ^ e) 1).units = f * 2 ^ e := by
  have hshort : f * 2 ^ e < 2 ^ (53 + e) := by
    rw [Nat.pow_add]
    exact Nat.mul_lt_mul_of_pos_right hf (Nat.two_pow_pos e)
  refine units_ofQuotient ?_ (Nat.le_trans (Nat.le_of_lt hshort) (two_pow_le_infinity (by omega)))
  refine Nat.dvd_trans (Nat.pow_dvd_pow 2 ?_) (Nat.dvd_mul_left (2 ^ e) f)
  rcases Nat.eq_zero_or_pos (f * 2 ^ e) with hzero | hpositive
  · rw [hzero]
    exact Nat.zero_le e
  · have hlog := (Nat.log2_lt (Nat.ne_of_gt hpositive)).2 hshort
    unfold spacing
    omega

end Magnitude

namespace Binary64

open Magnitude

-- ================================================ sums of whole numbers

/-- Doubles that are not negative are added as their worths. -/
theorem signed_add (a b : Magnitude) :
    Binary64.signed false a + .signed false b
      = .signed false (.ofQuotient (a.units + b.units) 1) := by
  show add _ _ = _
  unfold add
  dsimp only
  by_cases ha : a.isInfinite = true
  · obtain rfl := isInfinite_iff.1 ha
    rw [if_pos ha, ofQuotient_of_infinity_le (Nat.le_add_right _ _)]
    simp
  · rw [if_neg ha]
    by_cases hb : b.isInfinite = true
    · obtain rfl := isInfinite_iff.1 hb
      rw [if_pos hb, ofQuotient_of_infinity_le (Nat.le_add_left _ _)]
    · rw [if_neg hb]
      have hsum : exact false a + exact false b = ((a.units + b.units : Nat) : Int) := by
        simp [exact]
      have hpositive : ¬ ((a.units + b.units : Nat) : Int) < 0 := by omega
      rw [hsum, Int.natAbs_natCast, decide_eq_false hpositive]
      split
      · next hzero =>
        have hnone : a.units + b.units = Magnitude.zero.units := by
          rw [units_zero]
          omega
        rw [hnone, ofQuotient_units]
        rfl
      · rfl

/-- A power of two as a double. -/
theorem units_two_pow {k : Nat} (hk : k ≤ 52) :
    (ofQuotient (2 ^ k * 2 ^ 1074) 1).units = 2 ^ k * 2 ^ 1074 :=
  units_ofQuotient_shifted (e := 1074) (Nat.pow_lt_pow_right (by decide) (by omega)) (by decide)

/-- Doubling is exact, up to infinity. -/
theorem signed_mul_two_pow (m : Magnitude) {k : Nat} (hk : k ≤ 52) :
    Binary64.signed false m * .ofNat (2 ^ k) = .signed false (.ofQuotient (m.units * 2 ^ k) 1) := by
  have hunits := units_two_pow hk
  have hpositive : 0 < 2 ^ k * 2 ^ 1074 := Nat.mul_pos (Nat.two_pow_pos k) (Nat.two_pow_pos 1074)
  have hfinite : 2 ^ k * 2 ^ 1074 < Magnitude.infinity.units := by
    refine Nat.lt_of_lt_of_le ?_ (two_pow_le_infinity (k := k + 1074 + 1) (by omega))
    rw [← Nat.pow_add 2 k 1074]
    exact Nat.pow_lt_pow_right (by decide) (Nat.lt_succ_self _)
  unfold ofNat
  generalize ofQuotient (2 ^ k * 2 ^ 1074) 1 = base at hunits ⊢
  rw [← hunits] at hpositive hfinite
  have hbaseZero : base.isZero = false := by
    refine Bool.eq_false_iff.2 fun h => ?_
    rw [isZero_iff.1 h, units_zero] at hpositive
    exact Nat.lt_irrefl 0 hpositive
  have hbaseInfinite : base.isInfinite = false := by
    refine Bool.eq_false_iff.2 fun h => ?_
    rw [isInfinite_iff.1 h] at hfinite
    exact Nat.lt_irrefl _ hfinite
  show mul _ _ = _
  unfold mul
  dsimp only
  rw [hbaseZero, hbaseInfinite]
  by_cases hm : m.isInfinite = true
  · have hoverflow : Magnitude.infinity.units ≤ Magnitude.infinity.units * 2 ^ k :=
      Nat.le_mul_of_pos_right _ (Nat.two_pow_pos k)
    rw [isInfinite_iff.1 hm, ofQuotient_of_infinity_le hoverflow]
    rfl
  · have hscale := ofQuotient_mul_mul (m.units * 2 ^ k) 1 (Nat.two_pow_pos 1074)
    rw [Bool.eq_false_iff.2 hm, hunits, ← Nat.mul_assoc]
    rewrite [Nat.one_mul] at hscale
    simp only [Bool.and_false, Bool.or_false, Bool.false_eq_true, if_false, bne_self_eq_false,
      hscale]

/-- A number past 2^53 with zeros behind it lies runs past the one in
which a unit is a step. -/
theorem doublings_shifted {n k : Nat} (hn : 2 ^ 53 ≤ n) (hk : k ≤ 52) :
    1074 + k + 1 ≤ (ofQuotient (n * 2 ^ (1074 + k)) 1).doublings := by
  have hlong : 2 ^ 52 ≤ n := by omega
  have hrun := spacing_pos hn
  have hfull := (spacing_eq_zero_or n).resolve_left (by omega)
  have hround := Nat.le_trans hfull (roundHalfEven_bounds n (2 ^ spacing n)).1
  have hrank : 2 ^ 53 ≤ roundedRank n 1 := by
    rw [roundedRank, Nat.div_one, Nat.one_mul]
    omega
  unfold doublings
  rw [rank_ofQuotient, roundedRank_mul_two_pow hlong]
  omega

/-- One more digit. Up to 2^53 it counts; past that it is lost. -/
theorem ofNat_shift_add {n d k : Nat} (hk : k ≤ 52) (hd : d < 2 ^ k) :
    ofNat n * ofNat (2 ^ k) + ofNat d
      = ofNat (if n < 2 ^ 53 then n * 2 ^ k + d else n * 2 ^ k) := by
  have hdigit : (ofQuotient (d * 2 ^ 1074) 1).units = d * 2 ^ 1074 := by
    have hshort := Nat.pow_le_pow_right (n := 2) (by decide) hk
    exact units_ofQuotient_shifted (e := 1074) (by omega) (by decide)
  have hzeros (a : Nat) : a * 2 ^ 1074 * 2 ^ k = a * 2 ^ (1074 + k) := by
    rw [Nat.pow_add 2 1074 k, Nat.mul_assoc]
  have hshift : ofNat n * ofNat (2 ^ k)
      = .signed false (ofQuotient ((ofQuotient (n * 2 ^ 1074) 1).units * 2 ^ k) 1) :=
    signed_mul_two_pow _ hk
  rw [hshift, ofNat, ofNat, signed_add, hdigit]
  refine congrArg (Binary64.signed false) ?_
  rcases Nat.lt_or_ge n (2 ^ 53) with hshort | hlong
  · have hnumber : (ofQuotient (n * 2 ^ 1074) 1).units = n * 2 ^ 1074 :=
      units_ofQuotient_shifted (e := 1074) hshort (by decide)
    have hproduct : (ofQuotient (n * 2 ^ (1074 + k)) 1).units = n * 2 ^ (1074 + k) :=
      units_ofQuotient_shifted hshort (by omega)
    rw [if_pos hshort, hnumber, hzeros, hproduct, ← hzeros, Nat.add_mul, Nat.mul_right_comm]
  · have hpast : 2 ^ 52 ≤ n * 2 ^ 1074 :=
      Nat.le_trans (by omega) (Nat.le_mul_of_pos_right n (Nat.two_pow_pos 1074))
    have hmore : d * 2 ^ 1074 < 2 ^ (1074 + k) := by
      rw [Nat.pow_add 2 1074 k, Nat.mul_comm d]
      exact Nat.mul_lt_mul_of_pos_left hd (Nat.two_pow_pos 1074)
    have hstep : 2 * (d * 2 ^ 1074) < 2 ^ (ofQuotient (n * 2 ^ (1074 + k)) 1).doublings := by
      refine Nat.lt_of_lt_of_le ?_ (Nat.pow_le_pow_right (by decide) (doublings_shifted hlong hk))
      rewrite [Nat.pow_succ]
      omega
    rw [if_neg (Nat.not_lt_of_le hlong), ofQuotient_units_mul hpast, hzeros,
      ofQuotient_units_add hstep, Nat.mul_right_comm, hzeros]

end Binary64

-- ================================================= what the digits denote

namespace Numeric

/-- The letter behind a zero that tells the base, with the number of bits
that a digit stands for. -/
inductive Marks : Char → Nat → Prop
  | hex : Marks 'x' 4
  | hexUpper : Marks 'X' 4
  | octal : Marks 'o' 3
  | octalUpper : Marks 'O' 3
  | binary : Marks 'b' 1
  | binaryUpper : Marks 'B' 1

/-- What a digit is worth, 16 if it is none. -/
def digitWorth (c : Char) : Nat := "0123456789abcdef".toList.idxOf c.toLower

/-- The number that digits behind a number denote with it. -/
def denoted (base : Nat) (ds : List Char) (start : Nat) : Nat :=
  ds.foldl (fun n c => n * base + digitWorth c) start

/-- The number that is kept of it: from 2^53 on every digit is taken for a
zero. -/
def kept (base : Nat) (ds : List Char) (start : Nat) : Nat :=
  ds.foldl (fun n c => if n < 2 ^ 53 then n * base + digitWorth c else n * base) start

/-- The characters with a code below 128 are known one by one. -/
theorem digit?_ascii : ∀ n < 128, digit? 16 (Char.ofNat n) =
    if digitWorth (Char.ofNat n) < 16 then some (digitWorth (Char.ofNat n)) else none := by
  decide +kernel

/-- No character with a higher code is a digit. -/
theorem digit?_beyond {c : Char} (h : 128 ≤ c.toNat) :
    digit? 16 c = none ∧ digitWorth c = 16 := by
  have hval : 128 ≤ c.val.toNat := h
  constructor
  · have hdigit : ¬ c.isDigit = true := by
      simp [Char.isDigit, UInt32.le_iff_toNat_le]
      omega
    have hsmall : ¬ ('a' ≤ c ∧ c ≤ 'f') := by
      simp [Char.le_def, UInt32.le_iff_toNat_le]
      omega
    have hlarge : ¬ ('A' ≤ c ∧ c ≤ 'F') := by
      simp [Char.le_def, UInt32.le_iff_toNat_le]
      omega
    rw [digit?, if_neg hdigit, if_neg hsmall, if_neg hlarge]
    rfl
  · have hlower : c.toLower = c := by
      unfold Char.toLower
      rw [dif_neg]
      simp [UInt32.le_iff_toNat_le]
      omega
    rw [digitWorth, hlower]
    refine List.idxOf_eq_length fun hmem => ?_
    have hascii : "0123456789abcdef".toList.all (·.toNat < 128) = true := by decide
    exact Nat.not_lt_of_le h (of_decide_eq_true (List.all_eq_true.1 hascii c hmem))

/-- A character is a digit of a base if it is worth less than that. -/
theorem digit?_eq {base : Nat} (hbase : base ≤ 16) (c : Char) :
    digit? base c = if digitWorth c < base then some (digitWorth c) else none := by
  have hsixteen : digit? 16 c = if digitWorth c < 16 then some (digitWorth c) else none := by
    rcases Nat.lt_or_ge c.toNat 128 with hlow | hhigh
    · have := digit?_ascii c.toNat hlow
      rwa [Char.ofNat_toNat] at this
    · obtain ⟨hnone, hworth⟩ := digit?_beyond hhigh
      rw [hnone, hworth]
      rfl
  have hfilter : digit? base c = (digit? 16 c).filter (· < base) := by
    unfold digit?
    dsimp only
    rw [Option.filter_filter]
    congr 1
    funext n
    simp
    omega
  rw [hfilter, hsixteen]
  split
  · simp [Option.filter]
  · rw [if_neg (by omega)]
    rfl

-- ============================================================ the digits

/-- The digits add up to what is kept of them. -/
theorem foldlM_ofNat {k : Nat} (hk : k ≤ 4) {ds : List Char}
    (hds : ∀ c ∈ ds, digitWorth c < 2 ^ k) (start : Nat) :
    ds.foldlM (fun sum c => (digit? (2 ^ k) c).map fun d => sum * .ofNat (2 ^ k) + .ofNat d)
      (Binary64.ofNat start) = some (.ofNat (kept (2 ^ k) ds start)) := by
  induction ds generalizing start with
  | nil => rfl
  | cons c ds ih =>
    have hc := hds c List.mem_cons_self
    have hbase : 2 ^ k ≤ 16 := Nat.pow_le_pow_right (by decide) hk
    rw [List.foldlM_cons, digit?_eq hbase, if_pos hc, Option.map_some, Option.bind_eq_bind,
      Option.bind_some, Binary64.ofNat_shift_add (by omega) hc]
    exact ih (fun x hx => hds x (List.mem_cons_of_mem c hx)) _

/-- One or more digits are worth the double nearest to what is kept of
them. -/
theorem ofDigits_eq {k : Nat} (hk : k ≤ 4) {ds : List Char} (hsome : ds ≠ [])
    (hds : ∀ c ∈ ds, digitWorth c < 2 ^ k) : ofDigits (2 ^ k) ds = .ofNat (kept (2 ^ k) ds 0) := by
  have hzero : Binary64.zero = .ofNat 0 := by
    rw [Binary64.ofNat, Nat.zero_mul, ← Magnitude.units_zero, Magnitude.ofQuotient_units]
    rfl
  rw [ofDigits, if_neg hsome, hzero]
  exact congrArg (Option.getD · .nan) (foldlM_ofNat hk hds 0)

/-- Past 2^53 what is kept and what the digits denote begin alike, and only
what is kept goes on with zeros. -/
def Truncates (short full : Nat) : Prop :=
  short = full ∨ ∃ a t more, 2 ^ 53 ≤ a ∧ more < 2 ^ t ∧ short = a * 2 ^ t ∧ full = a * 2 ^ t + more

/-- Another digit leaves it so. -/
theorem Truncates.digit {k d short full : Nat} (hd : d < 2 ^ k) (h : Truncates short full) :
    Truncates (if short < 2 ^ 53 then short * 2 ^ k + d else short * 2 ^ k) (full * 2 ^ k + d) := by
  rcases h with rfl | ⟨a, t, more, ha, hmore, rfl, rfl⟩
  · split
    · exact .inl rfl
    · next hlong => exact .inr ⟨short, k, d, by omega, hd, rfl, rfl⟩
  · have hlong : 2 ^ 53 ≤ a * 2 ^ t :=
      Nat.le_trans ha (Nat.le_mul_of_pos_right a (Nat.two_pow_pos t))
    have hdigit : more * 2 ^ k + d < 2 ^ (t + k) := by
      have := Nat.mul_le_mul_right (2 ^ k) (Nat.succ_le_of_lt hmore)
      rw [Nat.succ_mul, ← Nat.pow_add] at this
      omega
    rw [if_neg (Nat.not_lt_of_le hlong)]
    refine .inr ⟨a, t + k, more * 2 ^ k + d, ha, hdigit, ?_, ?_⟩
    · rw [Nat.mul_assoc, Nat.pow_add]
    · rw [Nat.add_mul, Nat.mul_assoc, Nat.pow_add, Nat.add_assoc]

theorem kept_truncates {k : Nat} {ds : List Char} (hds : ∀ c ∈ ds, digitWorth c < 2 ^ k)
    {short full : Nat} (h : Truncates short full) :
    Truncates (kept (2 ^ k) ds short) (denoted (2 ^ k) ds full) := by
  induction ds generalizing short full with
  | nil => exact h
  | cons c ds ih =>
    exact ih (fun x hx => hds x (List.mem_cons_of_mem c hx)) (h.digit (hds c List.mem_cons_self))

/-- What is nearest to the number that is kept is nearest to the number
itself, unless digits are lost and there was a tie that went down. -/
theorem Truncates.nearest_iff {m : Magnitude} {short full : Nat} (h : Truncates short full)
    (hm : m.Nearest (short * 2 ^ 1074) 1) :
    m.Nearest (full * 2 ^ 1074) 1 ↔ ¬ (short < full ∧ m.TiesAbove (short * 2 ^ 1074) 1) := by
  refine ⟨fun hfull hlost => ?_, fun hsafe => ?_⟩
  · exact hlost.2.not_nearest Nat.one_pos
      (Nat.mul_lt_mul_of_pos_right hlost.1 (Nat.two_pow_pos 1074)) hfull
  · rcases h with rfl | ⟨a, t, more, ha, hmore, rfl, rfl⟩
    · exact hm
    · rcases Nat.eq_zero_or_pos more with rfl | hsome
      · exact hm
      · have htie : ¬ m.TiesAbove (a * 2 ^ t * 2 ^ 1074) 1 :=
          fun htie => hsafe ⟨Nat.lt_add_of_pos_right hsome, htie⟩
        have hless : more * 2 ^ 1074 < 2 ^ (t + 1074) := by
          rw [Nat.pow_add 2 t 1074]
          exact Nat.mul_lt_mul_of_pos_right hmore (Nat.two_pow_pos 1074)
        rw [Nat.mul_assoc, ← Nat.pow_add 2 t 1074] at hm htie
        rw [Nat.add_mul, Nat.mul_assoc, ← Nat.pow_add 2 t 1074]
        exact hm.shifted ha hless htie

theorem Marks.le {mark : Char} {k : Nat} (h : Marks mark k) : k ≤ 4 := by
  cases h <;> decide

theorem ofTrimmed_radix {mark : Char} {k : Nat} (h : Marks mark k) (ds : List Char) :
    ofTrimmed ('0' :: mark :: ds) = ofDigits (2 ^ k) ds := by
  have hword : '0' :: mark :: ds ≠ "Infinity".toList := by simp
  have hplus : '0' :: mark :: ds ≠ "+Infinity".toList := by simp
  have hminus : '0' :: mark :: ds ≠ "-Infinity".toList := by simp
  unfold ofTrimmed
  rw [if_neg (List.cons_ne_nil _ _), if_neg (not_or.2 ⟨hword, hplus⟩), if_neg hminus]
  cases h <;> simp only [Nat.reducePow]

/-- A text that spells a whole number in base 16, 8 or 2 is worth the
double nearest to the number that is kept of its digits. It is the double
nearest to the number itself exactly if no digits are lost behind a tie
that goes down. -/
theorem toNumber_radix {φ : Type} {s : String} {mark : Char} {k : Nat} {ds : List Char}
    (hs : Text.trimBlanks s.toList = '0' :: mark :: ds) (hmark : Marks mark k) (hsome : ds ≠ [])
    (hds : ∀ c ∈ ds, digitWorth c < 2 ^ k) :
    ∃ m : Magnitude, (Value.text s : Value φ).toNumber = .signed false m ∧
      m.Nearest (kept (2 ^ k) ds 0 * 2 ^ 1074) 1 ∧
      (m.Nearest (denoted (2 ^ k) ds 0 * 2 ^ 1074) 1 ↔
        ¬ (kept (2 ^ k) ds 0 < denoted (2 ^ k) ds 0 ∧
          m.TiesAbove (kept (2 ^ k) ds 0 * 2 ^ 1074) 1)) := by
  have hnearest := Magnitude.ofQuotient_nearest (kept (2 ^ k) ds 0 * 2 ^ 1074) Nat.one_pos
  refine ⟨_, ?_, hnearest, (kept_truncates hds (.inl rfl)).nearest_iff hnearest⟩
  rw [Value.toNumber, ofText, hs, ofTrimmed_radix hmark, ofDigits_eq hmark.le hsome hds]
  rfl

/-- The last digit is lost behind a tie that goes up, and nothing with it. -/
theorem toNumber_radix_odd :
    Text.trimBlanks " 0x200000000000031\n".toList = '0' :: 'x' :: "200000000000031".toList ∧
    Marks 'x' 4 ∧ "200000000000031".toList ≠ [] ∧
    (∀ c ∈ "200000000000031".toList, digitWorth c < 2 ^ 4) ∧
    kept (2 ^ 4) "200000000000031".toList 0 = 2 ^ 57 + 48 ∧
    denoted (2 ^ 4) "200000000000031".toList 0 = 2 ^ 57 + 49 ∧
    ∃ m : Magnitude, (Value.text " 0x200000000000031\n" : Value Empty).toNumber = .signed false m ∧
      m.Nearest ((2 ^ 57 + 48) * 2 ^ 1074) 1 ∧
      (m.Nearest ((2 ^ 57 + 49) * 2 ^ 1074) 1 ↔
        ¬ (2 ^ 57 + 48 < 2 ^ 57 + 49 ∧ m.TiesAbove ((2 ^ 57 + 48) * 2 ^ 1074) 1)) := by
  have htrim : Text.trimBlanks " 0x200000000000031\n".toList
      = '0' :: 'x' :: "200000000000031".toList := by decide
  have hmark : Marks 'x' 4 := .hex
  have hsome : "200000000000031".toList ≠ [] := by decide
  have hall : "200000000000031".toList.all (digitWorth · < 2 ^ 4) = true := by decide +kernel
  have hds : ∀ c ∈ "200000000000031".toList, digitWorth c < 2 ^ 4 :=
    fun c hc => of_decide_eq_true (List.all_eq_true.1 hall c hc)
  have hkept : kept (2 ^ 4) "200000000000031".toList 0 = 2 ^ 57 + 48 := by decide +kernel
  have hdenoted : denoted (2 ^ 4) "200000000000031".toList 0 = 2 ^ 57 + 49 := by decide +kernel
  have hworth := toNumber_radix (φ := Empty) htrim hmark hsome hds
  rw [hkept, hdenoted] at hworth
  exact ⟨htrim, hmark, hsome, hds, hkept, hdenoted, hworth⟩

/-- Behind a tie that goes down the last digit is missed: 2^57 + 17 is
worth 2^57, and 2^57 + 32 is nearer. -/
theorem toNumber_radix_missed :
    ¬ ∃ m : Magnitude, (Value.text "0x200000000000011" : Value Empty).toNumber = .signed false m ∧
      m.Nearest (denoted (2 ^ 4) "200000000000011".toList 0 * 2 ^ 1074) 1 := by
  rintro ⟨m, hworth, hnearest⟩
  have hvalue : (Value.text "0x200000000000011" : Value Empty).toNumber
      = .signed false ⟨1080 * 2 ^ 52, by decide⟩ := by decide +kernel
  have hcloser : Magnitude.distance ⟨1080 * 2 ^ 52 + 1, by decide⟩
        (denoted (2 ^ 4) "200000000000011".toList 0 * 2 ^ 1074) 1
      < Magnitude.distance ⟨1080 * 2 ^ 52, by decide⟩
        (denoted (2 ^ 4) "200000000000011".toList 0 * 2 ^ 1074) 1 := by decide +kernel
  rw [hvalue] at hworth
  obtain rfl : Magnitude.mk (1080 * 2 ^ 52) _ = m := by injection hworth
  exact Nat.not_lt_of_le (hnearest.closest _) hcloser

end Numeric

end Reckoner
