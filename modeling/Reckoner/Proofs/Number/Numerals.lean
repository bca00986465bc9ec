/-
What a text spells as a number. The grammar is written down here apart
from any reader: a sign, digits with a point among them or before them, an
exponent, a mark for a base, a word. It says what each of these texts is
worth, a decimal being worth the double nearest to it. A text is worth a
number exactly if it is in the grammar, and then the number that the
grammar gives it; every other text is worth NaN.

A literal is taken apart from left to right, so each part is an iff of its
own: what is an exponent, and what is a literal. A sign is taken off in
two places, before a literal and before an exponent, and is looked at once.
The forms of the grammar do not overlap, because no literal has a letter
other than that of an exponent; so the order in which they are tried does
not matter.
-/
import Reckoner.Proofs.Number.Radix

namespace Reckoner

open Decimal (exponentOfDigits)

-- ============================================================= grammar

namespace Numeric

/-- A sign, which may be missing; only a minus makes a number negative. -/
inductive Sign : (negative : Bool) → List Char → Prop
  | none : Sign false []
  | plus : Sign false ['+']
  | minus : Sign true ['-']

/-- Digits, the whole part, and perhaps a point with the places behind it.
There is a digit on one side of the point. -/
inductive Fixed : (cs whole places : List Char) → Prop
  | digits {whole : List Char} (nonempty : whole ≠ [])
      (digits : ∀ c ∈ whole, c.isDigit = true) : Fixed whole whole []
  | point {whole places : List Char} (nonempty : whole ≠ [] ∨ places ≠ [])
      (digits : ∀ c ∈ whole, c.isDigit = true) (more : ∀ c ∈ places, c.isDigit = true) :
      Fixed (whole ++ '.' :: places) whole places

/-- A number with a sign. -/
def signed (negative : Bool) (n : Nat) : Int := if negative then -(n : Int) else n

/-- Nothing, or a letter with an exponent, which has a digit. -/
inductive Scale : List Char → Int → Prop
  | none : Scale [] 0
  | exponent {c : Char} {negative : Bool} {sign ds : List Char} (letter : c = 'e' ∨ c = 'E')
      (front : Sign negative sign) (nonempty : ds ≠ []) (digits : ∀ c ∈ ds, c.isDigit = true) :
      Scale (c :: (sign ++ ds)) (signed negative (exponentOfDigits ds 0))

/-- A literal, and the decimal it denotes. -/
inductive Literal : List Char → Decimal → Prop
  | scaled {front tail whole places : List Char} {e : Int} (fixed : Fixed front whole places)
      (scale : Scale tail e) :
      Literal (front ++ tail) ⟨Nat.ofDigitChars 10 (whole ++ places) 0, e - places.length⟩

/-- A text that is worth a number, and the number. -/
inductive Numeral : List Char → Binary64 → Prop
  | blank : Numeral [] .zero
  | infinity {negative : Bool} {sign : List Char} (front : Sign negative sign) :
      Numeral (sign ++ "Infinity".toList) (.signed negative .infinity)
  | radix {mark : Char} {k : Nat} {ds : List Char} {m : Magnitude} (base : Marks mark k)
      (nonempty : ds ≠ []) (digits : ∀ c ∈ ds, digitWorth c < 2 ^ k)
      (nearest : m.Nearest (kept (2 ^ k) ds 0 * 2 ^ 1074) 1) :
      Numeral ('0' :: mark :: ds) (.signed false m)
  | decimal {negative : Bool} {sign cs : List Char} {d : Decimal} {m : Magnitude}
      (front : Sign negative sign) (literal : Literal cs d)
      (nearest : m.Nearest (d.coefficient * 10 ^ d.exponent.toNat * 2 ^ 1074)
        (10 ^ (-d.exponent).toNat)) :
      Numeral (sign ++ cs) (.signed negative m)

-- =============================================================== signs

/-- Is a text negative, and what is behind its sign? -/
def unsigned : List Char → Bool × List Char
  | '-' :: cs => (true, cs)
  | '+' :: cs => (false, cs)
  | cs => (false, cs)

theorem unsigned_sign (cs : List Char) :
    ∃ sign, Sign (unsigned cs).1 sign ∧ cs = sign ++ (unsigned cs).2 := by
  unfold unsigned
  split
  · exact ⟨_, .minus, rfl⟩
  · exact ⟨_, .plus, rfl⟩
  · exact ⟨_, .none, rfl⟩

theorem Sign.unsigned_append {negative : Bool} {sign : List Char} (h : Sign negative sign)
    {c : Char} (hminus : c ≠ '-') (hplus : c ≠ '+') (cs : List Char) :
    unsigned (sign ++ c :: cs) = (negative, c :: cs) := by
  cases h with
  | none =>
    show unsigned (c :: cs) = _
    unfold unsigned
    split
    · next h => exact absurd (List.cons.inj h).1 hminus
    · next h => exact absurd (List.cons.inj h).1 hplus
    · rfl
  | plus => rfl
  | minus => rfl

theorem isDigit_ne {c x : Char} (h : c.isDigit = true) (hx : x.isDigit = false) : c ≠ x := by
  rintro rfl
  rw [h] at hx
  exact Bool.noConfusion hx

end Numeric

namespace Decimal

open Numeric

-- =========================================================== exponents

/-- Digits are read as the number they are the digits of. -/
theorem natural?_eq_some_iff {ds : List Char} {n : Nat} : signedExponent?.natural? ds = some n ↔
    ds ≠ [] ∧ (∀ c ∈ ds, c.isDigit = true) ∧ exponentOfDigits ds 0 = n := by
  unfold signedExponent?.natural?
  split
  · next h =>
    exact ⟨fun hn => ⟨h.1, List.all_eq_true.1 h.2, Option.some.inj hn⟩,
      fun hn => congrArg some hn.2.2⟩
  · next h =>
    exact ⟨fun hn => (by cases hn), fun hn => absurd ⟨hn.1, List.all_eq_true.2 hn.2.1⟩ h⟩

theorem signedExponent?_eq (cs : List Char) : signedExponent? cs
    = (signedExponent?.natural? (unsigned cs).2).map (signed (unsigned cs).1) := by
  cases cs with
  | nil => rfl
  | cons c cs =>
    by_cases hminus : c = '-'
    · subst hminus
      show Option.map _ _ = (signedExponent?.natural? cs).map (signed true)
      cases signedExponent?.natural? cs <;> rfl
    by_cases hplus : c = '+'
    · subst hplus
      rfl
    have hunsigned : unsigned (c :: cs) = (false, c :: cs) :=
      Sign.none.unsigned_append hminus hplus cs
    rw [hunsigned]
    unfold signedExponent?
    split
    · next h => exact absurd (List.cons.inj h).1 hminus
    · next h => exact absurd (List.cons.inj h).1 hplus
    · rfl

/-- An exponent is read as what it stands for, and nothing else is. -/
theorem exponent?_eq_some_iff {cs : List Char} {e : Int} : exponent? cs = some e ↔ Scale cs e := by
  constructor
  · intro h
    cases cs with
    | nil =>
      obtain rfl := Option.some.inj h
      exact .none
    | cons c cs =>
      by_cases hletter : c = 'e' ∨ c = 'E'
      · rw [exponent?, if_pos hletter, signedExponent?_eq] at h
        obtain ⟨n, hn, rfl⟩ := Option.map_eq_some_iff.1 h
        obtain ⟨hnonempty, hdigits, rfl⟩ := natural?_eq_some_iff.1 hn
        obtain ⟨sign, hsign, hcs⟩ := unsigned_sign cs
        generalize unsigned cs = front at *
        subst hcs
        exact .exponent hletter hsign hnonempty hdigits
      · rw [exponent?, if_neg hletter] at h
        cases h
  · intro h
    cases h with
    | none => rfl
    | @exponent _ _ _ ds hletter hsign hnonempty hdigits =>
      have hn := natural?_eq_some_iff.2 ⟨hnonempty, hdigits, rfl⟩
      obtain ⟨d, ds, rfl⟩ := List.exists_cons_of_ne_nil hnonempty
      have hd := hdigits d List.mem_cons_self
      rw [exponent?, if_pos hletter, signedExponent?_eq,
        hsign.unsigned_append (isDigit_ne hd rfl) (isDigit_ne hd rfl), hn]
      rfl

-- ============================================================ literals

/-- An exponent begins with no digit and no point. -/
theorem stops_of_scale {tail : List Char} {e : Int} (h : Scale tail e) :
    tail.takeWhile Char.isDigit = [] ∧ tail.dropWhile Char.isDigit = tail ∧
      fraction tail = [] ∧ afterFraction tail = tail := by
  cases h with
  | none => exact ⟨rfl, rfl, rfl, rfl⟩
  | exponent hletter => rcases hletter with rfl | rfl <;> exact ⟨rfl, rfl, rfl, rfl⟩

theorem ofLiteral?_of_literal {cs : List Char} {d : Decimal} (h : Literal cs d) :
    ofLiteral? cs = some d := by
  obtain @⟨_, tail, whole, places, e, hfixed, hscale⟩ := h
  have he := exponent?_eq_some_iff.2 hscale
  obtain ⟨hstop, hrest, hfraction, hafter⟩ := stops_of_scale hscale
  unfold ofLiteral?
  cases hfixed with
  | digits hnonempty hdigits =>
    rw [List.takeWhile_append_of_pos hdigits, List.dropWhile_append_of_pos hdigits, hstop, hrest,
      List.append_nil]
    dsimp only
    rw [hfraction, hafter, he, if_neg fun h => hnonempty h.1, List.append_nil]
    rfl
  | point hnonempty hdigits hmore =>
    have hplaces : fraction ('.' :: (places ++ tail)) = places := by
      show (places ++ tail).takeWhile Char.isDigit = places
      rw [List.takeWhile_append_of_pos hmore, hstop, List.append_nil]
    have hbehind : afterFraction ('.' :: (places ++ tail)) = tail := by
      show (places ++ tail).dropWhile Char.isDigit = tail
      rw [List.dropWhile_append_of_pos hmore, hrest]
    have hpoint : whole ++ '.' :: places ++ tail = whole ++ '.' :: (places ++ tail) := by simp
    have hfront : ('.' :: (places ++ tail)).takeWhile Char.isDigit = [] := rfl
    have hback : ('.' :: (places ++ tail)).dropWhile Char.isDigit = '.' :: (places ++ tail) := rfl
    rw [hpoint, List.takeWhile_append_of_pos hdigits, List.dropWhile_append_of_pos hdigits, hfront,
      hback, List.append_nil]
    dsimp only
    rw [hplaces, hbehind, he, if_neg fun h => hnonempty.elim (· h.1) (· h.2)]
    rfl

/-- A point tells whether there are places. -/
theorem point_or_not (rest : List Char) :
    (∃ more, rest = '.' :: more) ∨ fraction rest = [] ∧ afterFraction rest = rest := by
  unfold fraction afterFraction
  split
  · exact .inl ⟨_, rfl⟩
  · exact .inr ⟨rfl, rfl⟩

theorem literal_of_ofLiteral? {cs : List Char} {d : Decimal} (h : ofLiteral? cs = some d) :
    Literal cs d := by
  have hcs := List.takeWhile_append_dropWhile (p := Char.isDigit) (l := cs)
  have hdigits : ∀ c ∈ cs.takeWhile Char.isDigit, c.isDigit = true := fun _ hc =>
    List.all_eq_true.1 List.all_takeWhile _ hc
  unfold ofLiteral? at h
  dsimp only at h
  generalize cs.takeWhile Char.isDigit = whole at *
  generalize cs.dropWhile Char.isDigit = rest at *
  subst hcs
  split at h
  · cases h
  · next hnonempty =>
    obtain ⟨e, he, rfl⟩ := Option.map_eq_some_iff.1 h
    have hscale := exponent?_eq_some_iff.1 he
    rcases point_or_not rest with ⟨more, rfl⟩ | ⟨hfraction, hafter⟩
    · have hmore := List.takeWhile_append_dropWhile (p := Char.isDigit) (l := more)
      have hsplit : whole ++ '.' :: more
          = whole ++ '.' :: more.takeWhile Char.isDigit ++ more.dropWhile Char.isDigit := by
        rw [List.append_assoc, List.cons_append, hmore]
      rw [hsplit]
      refine .scaled (.point ?_ hdigits ?_) hscale
      · exact Decidable.not_and_iff_not_or_not.1 hnonempty
      · exact fun _ hc => List.all_eq_true.1 List.all_takeWhile _ hc
    · rw [hafter] at hscale
      rw [hfraction] at hnonempty ⊢
      exact .scaled (.digits (fun h => hnonempty ⟨h, rfl⟩) hdigits) hscale

/-- A literal is read as what it stands for, and nothing else is. -/
theorem ofLiteral?_eq_some_iff {cs : List Char} {d : Decimal} :
    ofLiteral? cs = some d ↔ Literal cs d :=
  ⟨literal_of_ofLiteral?, ofLiteral?_of_literal⟩

-- ========================================================= the nearest

/-- A decimal is rounded to the nearest magnitude. -/
theorem toMagnitude_nearest (d : Decimal) :
    d.toMagnitude.Nearest (d.coefficient * 10 ^ d.exponent.toNat * 2 ^ 1074)
      (10 ^ (-d.exponent).toNat) := by
  have hsame : d.exponent + (-d.exponent).toNat = d.exponent.toNat := by omega
  rw [toMagnitude_eq_rounded, rounded_eq d hsame]
  exact Magnitude.ofQuotient_nearest _ (Nat.pow_pos (by decide))

end Decimal

namespace Numeric

-- ======================================================== plain texts

/-- A character that a signed literal may have. -/
def isPlain (c : Char) : Bool := c.isDigit || ".eE+-".toList.contains c

/-- What is to be said of these characters is checked one by one. -/
theorem of_isPlain {p : Char → Prop} {c : Char} (h : isPlain c = true)
    (hall : ∀ n < 128, isPlain (Char.ofNat n) = true → p (Char.ofNat n)) : p c := by
  have hascii : c.toNat < 128 := by
    rcases Bool.or_eq_true .. ▸ h with hdigit | hother
    · simp only [Char.isDigit, Bool.and_eq_true, decide_eq_true_eq,
        UInt32.le_iff_toNat_le] at hdigit
      exact Nat.lt_of_le_of_lt hdigit.2 (by decide)
    · have hothers : ".eE+-".toList.all (·.toNat < 128) = true := by decide
      exact of_decide_eq_true (List.all_eq_true.1 hothers c (List.contains_iff_mem.1 hother))
  have hc := hall c.toNat hascii
  rw [Char.ofNat_toNat] at hc
  exact hc h

theorem isPlain_of_isDigit {c : Char} (h : c.isDigit = true) : isPlain c = true := by
  rw [isPlain, h, Bool.true_or]

theorem Sign.plain {negative : Bool} {sign : List Char} (h : Sign negative sign) :
    ∀ c ∈ sign, isPlain c = true := by
  intro c hc
  cases h with
  | none => cases hc
  | plus => exact List.mem_singleton.1 hc ▸ rfl
  | minus => exact List.mem_singleton.1 hc ▸ rfl

theorem Fixed.plain {cs whole places : List Char} (h : Fixed cs whole places) :
    ∀ c ∈ cs, isPlain c = true := by
  intro c hc
  cases h with
  | digits _ digits => exact isPlain_of_isDigit (digits c hc)
  | point _ digits more =>
    rcases List.mem_append.1 hc with hwhole | hrest
    · exact isPlain_of_isDigit (digits c hwhole)
    · rcases List.mem_cons.1 hrest with rfl | hplace
      · rfl
      · exact isPlain_of_isDigit (more c hplace)

theorem Scale.plain {cs : List Char} {e : Int} (h : Scale cs e) : ∀ c ∈ cs, isPlain c = true := by
  intro c hc
  cases h with
  | none => cases hc
  | exponent letter front _ digits =>
    rcases List.mem_cons.1 hc with rfl | hrest
    · rcases letter with rfl | rfl <;> rfl
    · exact (List.mem_append.1 hrest).elim (front.plain c) fun h => isPlain_of_isDigit (digits c h)

/-- A literal has none but plain characters. -/
theorem Literal.plain {cs : List Char} {d : Decimal} (h : Literal cs d) :
    ∀ c ∈ cs, isPlain c = true := by
  obtain ⟨fixed, scale⟩ := h
  exact fun c hc => (List.mem_append.1 hc).elim (fixed.plain c) (scale.plain c)

/-- A literal begins with a digit or a point. -/
theorem Literal.front {cs : List Char} {d : Decimal} (h : Literal cs d) :
    ∃ c rest, cs = c :: rest ∧ (c.isDigit = true ∨ c = '.') := by
  obtain @⟨_, _, whole, _, _, fixed, scale⟩ := h
  cases fixed with
  | digits nonempty digits =>
    obtain ⟨c, rest, rfl⟩ := List.exists_cons_of_ne_nil nonempty
    exact ⟨c, _, rfl, .inl (digits c List.mem_cons_self)⟩
  | point _ digits _ =>
    cases whole with
    | nil => exact ⟨'.', _, rfl, .inr rfl⟩
    | cons c whole => exact ⟨c, _, rfl, .inl (digits c List.mem_cons_self)⟩

-- ======================================================= signed literals

/-- What a text is worth as a literal with a sign. -/
def ofSigned (cs : List Char) : Binary64 := .ofLiteral (unsigned cs).1 (unsigned cs).2

theorem ofSigned_of_literal {negative : Bool} {sign cs : List Char} {d : Decimal}
    (hsign : Sign negative sign) (h : Literal cs d) :
    ofSigned (sign ++ cs) = .signed negative d.toMagnitude := by
  have hliteral := Decimal.ofLiteral?_eq_some_iff.2 h
  obtain ⟨c, rest, rfl, hc⟩ := h.front
  have hminus : c ≠ '-' := hc.elim (isDigit_ne · rfl) (fun h => by rw [h]; decide)
  have hplus : c ≠ '+' := hc.elim (isDigit_ne · rfl) (fun h => by rw [h]; decide)
  rw [ofSigned, hsign.unsigned_append hminus hplus, Binary64.ofLiteral, hliteral]

/-- A text that is worth a number as a literal with a sign is one. -/
theorem literal_of_ofSigned {cs : List Char} (h : ofSigned cs ≠ .nan) :
    ∃ negative sign literal d, Sign negative sign ∧ Literal literal d ∧ cs = sign ++ literal := by
  obtain ⟨sign, hsign, hcs⟩ := unsigned_sign cs
  unfold ofSigned Binary64.ofLiteral at h
  split at h
  · next d hd => exact ⟨_, sign, _, d, hsign, Decimal.ofLiteral?_eq_some_iff.1 hd, hcs⟩
  · exact absurd rfl h

/-- A text that has neither a mark nor a word is read as a literal. -/
theorem ofTrimmed_signed {cs : List Char} (hsome : cs ≠ [])
    (hword : ∀ negative sign, Sign negative sign → cs ≠ sign ++ "Infinity".toList)
    (hmark : ∀ mark k ds, Marks mark k → cs ≠ '0' :: mark :: ds) : ofTrimmed cs = ofSigned cs := by
  have hbare : cs ≠ "Infinity".toList := hword _ _ .none
  have hplus : cs ≠ "+Infinity".toList := hword _ _ .plus
  have hminus : cs ≠ "-Infinity".toList := hword _ _ .minus
  unfold ofTrimmed
  rw [if_neg hsome, if_neg (not_or.2 ⟨hbare, hplus⟩), if_neg hminus]
  split
  · exact absurd rfl (hmark _ _ _ .hex)
  · exact absurd rfl (hmark _ _ _ .hexUpper)
  · exact absurd rfl (hmark _ _ _ .octal)
  · exact absurd rfl (hmark _ _ _ .octalUpper)
  · exact absurd rfl (hmark _ _ _ .binary)
  · exact absurd rfl (hmark _ _ _ .binaryUpper)
  · rfl
  · rfl
  · next hplus hminus =>
    unfold ofSigned unsigned
    split
    · exact absurd rfl (hminus _)
    · exact absurd rfl (hplus _)
    · rfl

/-- No word and no mark is plain. -/
theorem ofTrimmed_plain {cs : List Char} (hsome : cs ≠ []) (h : ∀ c ∈ cs, isPlain c = true) :
    ofTrimmed cs = ofSigned cs := by
  refine ofTrimmed_signed hsome ?_ ?_
  · rintro negative sign - rfl
    have hletter := h 'I' (List.mem_append_right sign (by decide))
    exact absurd hletter (by decide)
  · rintro mark k ds hmark rfl
    have hletter := h mark (by simp)
    cases hmark <;> exact absurd hletter (by decide)

-- ============================================================= numerals

/-- Digits of which one is not of the base are worth nothing. -/
theorem digits_of_foldlM {k : Nat} (hk : k ≤ 4) {ds : List Char} (start : Binary64)
    (h : ds.foldlM (fun sum c => (digit? (2 ^ k) c).map fun d => sum * .ofNat (2 ^ k) + .ofNat d)
      start ≠ none) : ∀ c ∈ ds, digitWorth c < 2 ^ k := by
  have hbase : 2 ^ k ≤ 16 := Nat.pow_le_pow_right (by decide) hk
  induction ds generalizing start with
  | nil => exact fun _ hx => absurd hx List.not_mem_nil
  | cons c ds ih =>
    rw [List.foldlM_cons, digit?_eq hbase] at h
    by_cases hc : digitWorth c < 2 ^ k
    · rw [if_pos hc] at h
      intro x hx
      rcases List.mem_cons.1 hx with rfl | hrest
      · exact hc
      · exact ih _ h x hrest
    · rw [if_neg hc] at h
      exact absurd rfl h

/-- What is read as digits in a base is digits in that base. -/
theorem digits_of_ofDigits {k : Nat} (hk : k ≤ 4) {ds : List Char}
    (h : ofDigits (2 ^ k) ds ≠ .nan) : ds ≠ [] ∧ ∀ c ∈ ds, digitWorth c < 2 ^ k := by
  unfold ofDigits at h
  split at h
  · exact absurd rfl h
  · next hsome =>
    refine ⟨hsome, digits_of_foldlM hk .zero fun hnone => h ?_⟩
    dsimp only
    rw [hnone]
    rfl

theorem signed_ne_nan {negative : Bool} {m : Magnitude} :
    Binary64.signed negative m ≠ .nan := by
  simp

/-- A numeral is read as the number it stands for. -/
theorem ofTrimmed_of_numeral {cs : List Char} {x : Binary64} (h : Numeral cs x) :
    x ≠ .nan ∧ ofTrimmed cs = x := by
  cases h with
  | blank => exact ⟨signed_ne_nan, rfl⟩
  | infinity front => cases front <;> exact ⟨signed_ne_nan, by decide⟩
  | radix base nonempty digits nearest =>
    refine ⟨signed_ne_nan, ?_⟩
    rw [ofTrimmed_radix base, ofDigits_eq base.le nonempty digits, Binary64.ofNat,
      (Magnitude.ofQuotient_eq_iff Nat.one_pos).2 nearest]
  | @decimal _ sign literal d _ front hliteral nearest =>
    have hworth := d.toMagnitude_nearest.unique (Nat.pow_pos (by decide)) nearest
    have hsome : sign ++ literal ≠ [] := by
      obtain ⟨c, rest, rfl, -⟩ := hliteral.front
      simp
    refine ⟨signed_ne_nan, ?_⟩
    rw [ofTrimmed_plain hsome fun c hc => (List.mem_append.1 hc).elim (front.plain c)
      (hliteral.plain c), ofSigned_of_literal front hliteral, hworth]

/-- What is read as a number is a numeral. -/
theorem numeral_of_ofTrimmed {cs : List Char} (h : ofTrimmed cs ≠ .nan) :
    Numeral cs (ofTrimmed cs) := by
  by_cases hsome : cs = []
  · rw [hsome]
    exact .blank
  by_cases hword : ∃ negative sign, Sign negative sign ∧ cs = sign ++ "Infinity".toList
  · obtain ⟨negative, sign, hsign, rfl⟩ := hword
    have hnumeral := Numeral.infinity hsign
    rwa [(ofTrimmed_of_numeral hnumeral).2]
  by_cases hmark : ∃ mark k ds, Marks mark k ∧ cs = '0' :: mark :: ds
  · obtain ⟨mark, k, ds, hbase, rfl⟩ := hmark
    rw [ofTrimmed_radix hbase] at h ⊢
    obtain ⟨hnonempty, hdigits⟩ := digits_of_ofDigits hbase.le h
    rw [ofDigits_eq hbase.le hnonempty hdigits]
    exact .radix hbase hnonempty hdigits (Magnitude.ofQuotient_nearest _ Nat.one_pos)
  · have hsigned := ofTrimmed_signed hsome (fun n s hs hcs => hword ⟨n, s, hs, hcs⟩)
      (fun m k ds hm hcs => hmark ⟨m, k, ds, hm, hcs⟩)
    rw [hsigned] at h ⊢
    obtain ⟨negative, sign, literal, d, hsign, hliteral, rfl⟩ := literal_of_ofSigned h
    rw [ofSigned_of_literal hsign hliteral]
    exact .decimal hsign hliteral d.toMagnitude_nearest

/-- The grammar is what is read. -/
theorem numeral_iff {cs : List Char} {x : Binary64} :
    Numeral cs x ↔ x ≠ .nan ∧ ofTrimmed cs = x := by
  refine ⟨ofTrimmed_of_numeral, ?_⟩
  rintro ⟨hnumber, rfl⟩
  exact numeral_of_ofTrimmed hnumber

end Numeric

end Reckoner
