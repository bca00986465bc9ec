/-
Plain decimals as literals. The plain layout is digits with at most one
point behind the first of them. A text of that form is one numeral from
end to end, and it denotes the decimal whose digits it has; for the plain
text of a decimal that is a decimal worth as much. So the plain text of a
number is a literal for it.
-/
import Reckoner.Binary64.Layout
import Reckoner.Proofs.Lexing.Seam
import Reckoner.Proofs.Number.Exact

namespace Reckoner

-- ================================================== digits and a point

/-- A text made of digits, the whole part, and perhaps a point with more
of them behind it, the places. -/
inductive Pointed : (cs whole places : List Char) → Prop
  | digits {whole : List Char} (nonempty : whole ≠ [])
      (digits : ∀ c ∈ whole, c.isDigit = true) : Pointed whole whole []
  | point {whole places : List Char} (nonempty : whole ≠ [])
      (digits : ∀ c ∈ whole, c.isDigit = true) (more : ∀ c ∈ places, c.isDigit = true) :
      Pointed (whole ++ '.' :: places) whole places

/-- Digits are taken to the last. -/
theorem takeWhile_digits {ds : List Char} (h : ∀ c ∈ ds, c.isDigit = true) :
    ds.takeWhile Char.isDigit = ds := by
  rw [← List.append_nil ds, List.takeWhile_append_of_pos h]
  rfl

theorem dropWhile_digits {ds : List Char} (h : ∀ c ∈ ds, c.isDigit = true) :
    ds.dropWhile Char.isDigit = [] := by
  rw [← List.append_nil ds, List.dropWhile_append_of_pos h]
  rfl

namespace Pointed

variable {cs whole places : List Char}

/-- Such a text begins with a digit. -/
theorem front (h : Pointed cs whole places) : ∃ c rest, cs = c :: rest ∧ c.isDigit = true := by
  cases h with
  | digits nonempty digits =>
    obtain ⟨c, rest, rfl⟩ := List.exists_cons_of_ne_nil nonempty
    exact ⟨c, rest, rfl, digits c List.mem_cons_self⟩
  | point nonempty digits _ =>
    obtain ⟨c, rest, rfl⟩ := List.exists_cons_of_ne_nil nonempty
    exact ⟨c, _, rfl, digits c List.mem_cons_self⟩

/-- The whole text is one numeral. -/
theorem numeral_eq (h : Pointed cs whole places) : Lexer.numeral cs = cs := by
  rw [Lexer.numeral_eq]
  cases h with
  | digits _ digits =>
    rw [takeWhile_digits digits, dropWhile_digits digits]
    exact List.append_nil _
  | point _ digits more =>
    rw [List.takeWhile_append_of_pos digits, List.dropWhile_append_of_pos digits]
    show whole ++ [] ++ '.' :: places.takeWhile Char.isDigit = _
    rw [takeWhile_digits more, List.append_nil]

/-- The text denotes the decimal with its digits. -/
theorem ofLiteral?_eq (h : Pointed cs whole places) :
    Decimal.ofLiteral? cs = some ⟨Nat.ofDigitChars 10 (whole ++ places) 0, -places.length⟩ := by
  unfold Decimal.ofLiteral?
  cases h with
  | digits nonempty digits =>
    simp [takeWhile_digits digits, dropWhile_digits digits, nonempty, Decimal.fraction,
      Decimal.afterFraction, Decimal.exponent?]
  | point nonempty digits more =>
    simp [List.takeWhile_append_of_pos digits, List.dropWhile_append_of_pos digits,
      takeWhile_digits more, dropWhile_digits more, nonempty, Decimal.fraction,
      Decimal.afterFraction, Decimal.exponent?]

end Pointed

-- ===================================================== the plain layout

namespace Decimal

theorem isDigit_of_mem_digits {d : Decimal} : ∀ c ∈ d.digits, c.isDigit = true :=
  fun _ hc => Nat.isDigit_of_mem_toDigits (by decide) (by decide) hc

theorem isDigit_of_mem_zeros {n : Nat} : ∀ c ∈ List.replicate n '0', c.isDigit = true := by
  intro c hc
  rw [List.eq_of_mem_replicate hc]
  rfl

/-- The digits of a decimal are worth its coefficient. -/
theorem ofDigitChars_digits (d : Decimal) : Nat.ofDigitChars 10 d.digits 0 = d.coefficient :=
  Nat.ofDigitChars_ten_toDigits

/-- The plain layout is of that form, and its digits with its places are
worth the decimal. -/
theorem plain_pointed (d : Decimal) : ∃ whole places, Pointed d.plain whole places ∧
    (⟨Nat.ofDigitChars 10 (whole ++ places) 0, -places.length⟩ : Decimal).toMagnitude
      = d.toMagnitude := by
  have hdigits := isDigit_of_mem_digits (d := d)
  have hworth := d.ofDigitChars_digits
  have hnonempty : d.digits ≠ [] := Nat.toDigits_ne_nil
  obtain ⟨c, e⟩ := d
  unfold plain
  generalize digits ⟨c, e⟩ = ds at hdigits hworth hnonempty ⊢
  dsimp only at hworth ⊢
  cases e with
  | ofNat e =>
    refine ⟨ds ++ List.replicate e '0', [], .digits ?_ ?_, ?_⟩
    · exact List.append_ne_nil_of_left_ne_nil hnonempty _
    · exact fun x hx => (List.mem_append.1 hx).elim (hdigits x) (isDigit_of_mem_zeros x)
    · rw [List.append_nil, Nat.ofDigitChars_append, Nat.ofDigitChars_replicate_zero, hworth,
        Nat.mul_comm]
      exact toMagnitude_shift c e
  | negSucc e =>
    dsimp only
    split
    · next hwhole =>
      refine ⟨ds.take (ds.length - (e + 1)), ds.drop (ds.length - (e + 1)), .point ?_ ?_ ?_, ?_⟩
      · rw [Ne, ← List.length_eq_zero_iff, List.length_take]
        omega
      · exact fun x hx => hdigits x (List.mem_of_mem_take hx)
      · exact fun x hx => hdigits x (List.mem_of_mem_drop hx)
      · have hplaces : -((ds.length - (ds.length - (e + 1)) : Nat) : Int) = .negSucc e := by omega
        rw [List.take_append_drop, hworth, List.length_drop, hplaces]
    · next hwhole =>
      have hplain : '0' :: '.' :: List.replicate (e + 1 - ds.length) '0' ++ ds
          = ['0'] ++ '.' :: (List.replicate (e + 1 - ds.length) '0' ++ ds) := rfl
      rw [hplain]
      refine ⟨_, _, .point (List.cons_ne_nil _ _) ?_ ?_, ?_⟩
      · intro x hx
        obtain rfl := List.mem_singleton.1 hx
        rfl
      · exact fun x hx => (List.mem_append.1 hx).elim (isDigit_of_mem_zeros x) (hdigits x)
      · have hzero : Nat.ofDigitChars 10 ['0'] 0 = 0 := rfl
        have hplaces : -((e + 1 - ds.length + ds.length : Nat) : Int) = .negSucc e := by omega
        rw [Nat.ofDigitChars_append, Nat.ofDigitChars_append, hzero,
          Nat.ofDigitChars_replicate_zero, Nat.mul_zero, hworth, List.length_append,
          List.length_replicate, hplaces]

end Decimal

-- ====================================================== numbers as text

/-- The plain text of a magnitude is a literal for it. -/
theorem Binary64.ofLiteral_plain (m : Magnitude) :
    Binary64.ofLiteral false m.shortest.plain = .signed false m := by
  obtain ⟨whole, places, hform, hworth⟩ := m.shortest.plain_pointed
  unfold Binary64.ofLiteral
  rw [hform.ofLiteral?_eq]
  show Binary64.signed false _ = _
  rw [hworth, m.shortest_toMagnitude]

end Reckoner
