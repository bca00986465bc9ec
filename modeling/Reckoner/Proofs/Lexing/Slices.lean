/-
A token and the slice of the text that it is. What a token says can be
told from its slice alone, and the slice is the longest that says it:
the token would take no more of what is behind. Both are said here
without following how a text is scanned. The two together are exactly
what the scan of one lexeme finds, so a statement about the tokens of a
text can be made about their slices instead.
-/
import Reckoner.Proofs.Lexing.Words
import Reckoner.Proofs.Number.Literal

namespace Reckoner.Lexer

-- ============================================================= numerals

/-- Is the slice a number: digits, with at most one point among them? A
lone point is one. -/
structure IsNumeral (slice : List Char) : Prop where
  nonempty : slice ≠ []
  marks : ∀ c ∈ slice, startsNumber c = true
  points : slice.count '.' ≤ 1

theorem isDigit_of_startsNumber {c : Char} (h : startsNumber c = true) (hpoint : c ≠ '.') :
    c.isDigit = true := by
  simpa [startsNumber, hpoint] using h

/-- A number is digits, or digits on either side of a point. -/
theorem IsNumeral.split {slice : List Char} (h : IsNumeral slice) :
    ∃ whole : List Char, (∀ c ∈ whole, c.isDigit = true) ∧ (slice = whole ∨
      ∃ places : List Char, (∀ c ∈ places, c.isDigit = true) ∧ slice = whole ++ '.' :: places) := by
  obtain ⟨-, hmarks, hpoints⟩ := h
  by_cases hpoint : '.' ∈ slice
  · obtain ⟨whole, places, rfl⟩ := List.append_of_mem hpoint
    rw [List.count_append, List.count_cons_self] at hpoints
    have hdigit (c : Char) (hc : c ∈ whole ++ '.' :: places) (hne : c ≠ '.') : c.isDigit = true :=
      isDigit_of_startsNumber (hmarks c hc) hne
    have hwhole : '.' ∉ whole := List.count_eq_zero.1 (by omega)
    have hplaces : '.' ∉ places := List.count_eq_zero.1 (by omega)
    refine ⟨whole, fun c hc => hdigit c (by simp [hc]) ?_, .inr ⟨places,
      fun c hc => hdigit c (by simp [hc]) ?_, rfl⟩⟩
    · rintro rfl
      exact hwhole hc
    · rintro rfl
      exact hplaces hc
  · refine ⟨slice, fun c hc => isDigit_of_startsNumber (hmarks c hc) ?_, .inl rfl⟩
    rintro rfl
    exact hpoint hc

/-- A number is one numeral from end to end. -/
theorem IsNumeral.numeral_eq {slice : List Char} (h : IsNumeral slice) :
    numeral slice = slice := by
  obtain ⟨whole, hwhole, rfl | ⟨places, hplaces, rfl⟩⟩ := h.split
  · rw [Lexer.numeral_eq, takeWhile_digits hwhole, dropWhile_digits hwhole]
    exact List.append_nil _
  · rw [Lexer.numeral_eq, List.takeWhile_append_of_pos hwhole, List.dropWhile_append_of_pos hwhole]
    show whole ++ [] ++ '.' :: places.takeWhile Char.isDigit = _
    rw [takeWhile_digits hplaces, List.append_nil]

theorem count_point_takeWhile (cs : List Char) : (cs.takeWhile Char.isDigit).count '.' = 0 := by
  rw [List.count_eq_zero]
  intro hmem
  have hdigit := List.all_eq_true.1 (List.all_takeWhile (p := Char.isDigit) (l := cs)) _ hmem
  cases hdigit

/-- What the scan takes as a numeral is a number. -/
theorem isNumeral_numeral {c : Char} (h : startsNumber c = true) (cs : List Char) :
    IsNumeral (numeral (c :: cs)) := by
  have hdigits (ds : List Char) : ∀ d ∈ ds.takeWhile Char.isDigit, startsNumber d = true := by
    intro d hd
    have hdigit := List.all_eq_true.1 (List.all_takeWhile (p := Char.isDigit) (l := ds)) d hd
    simp [startsNumber, hdigit]
  refine ⟨numeral_ne_nil h cs, ?_, ?_⟩
  · intro d hd
    rw [Lexer.numeral_eq] at hd
    rcases List.mem_append.1 hd with hd | hd
    · exact hdigits _ d hd
    · unfold pointed at hd
      split at hd
      · rcases List.mem_cons.1 hd with rfl | hd
        · rfl
        · exact hdigits _ d hd
      · cases hd
  · rw [Lexer.numeral_eq, List.count_append, count_point_takeWhile, Nat.zero_add]
    unfold pointed
    split
    · exact Nat.le_of_eq (by rw [List.count_cons_self, count_point_takeWhile])
    · exact Nat.zero_le _

/-- What is behind a run does not go on with it. -/
theorem stop_of_mem_head?_dropWhile {α : Type} {p : α → Bool} {as : List α} {a : α}
    (h : a ∈ (as.dropWhile p).head?) : p a = false := by
  have hstop := List.head?_dropWhile_not p as
  rw [Option.mem_def.1 h] at hstop
  exact hstop

/-- No digit is behind a numeral, and no point that it could have taken. -/
theorem apart_numeral {cs back : List Char} (h : cs = numeral cs ++ back)
    (hpoint : back.head? ≠ some '.') : Apart .number back := by
  have hrest : cs.dropWhile Char.isDigit = pointed (cs.dropWhile Char.isDigit) ++ back := by
    rw [Lexer.numeral_eq, List.append_assoc] at h
    conv at h => lhs; rw [← List.takeWhile_append_dropWhile (p := Char.isDigit) (l := cs)]
    exact List.append_cancel_left h
  intro d hd
  have hne : d ≠ '.' := by
    rintro rfl
    exact hpoint hd
  suffices hdigit : d.isDigit = false by simp [merges, startsNumber, hdigit, hne]
  unfold pointed at hrest
  split at hrest
  · next rest hpointed =>
    -- behind the point the digits have been taken as well
    have hback : rest.dropWhile Char.isDigit = back := by
      rw [hpointed, List.cons_append, List.cons.injEq] at hrest
      obtain ⟨-, hrest⟩ := hrest
      conv at hrest => lhs; rw [← List.takeWhile_append_dropWhile (p := Char.isDigit) (l := rest)]
      exact List.append_cancel_left hrest
    rw [← hback] at hd
    exact stop_of_mem_head?_dropWhile hd
  · rw [List.nil_append] at hrest
    rw [← hrest] at hd
    exact stop_of_mem_head?_dropWhile hd

/-- Only the lone point denotes no number. -/
theorem IsNumeral.ofLiteral_eq_nan_iff {slice : List Char} (h : IsNumeral slice) :
    Binary64.ofLiteral false slice = .nan ↔ slice = ['.'] := by
  have hpointed {cs whole places : List Char} (h : Pointed cs whole places) :
      Binary64.ofLiteral false cs ≠ .nan := by
    unfold Binary64.ofLiteral
    rw [h.ofLiteral?_eq]
    exact nofun
  constructor
  · intro hnan
    obtain ⟨whole, hwhole, rfl | ⟨places, hplaces, rfl⟩⟩ := h.split
    · exact absurd hnan (hpointed (.digits h.nonempty hwhole))
    · cases whole with
      | cons c whole => exact absurd hnan (hpointed (.point nofun hwhole hplaces))
      | nil =>
        cases places with
        | nil => rfl
        | cons d places =>
          exfalso
          revert hnan
          simp [Binary64.ofLiteral, Decimal.ofLiteral?, Decimal.fraction, Decimal.afterFraction,
            takeWhile_digits hplaces, dropWhile_digits hplaces, Decimal.exponent?]
  · rintro rfl
    decide +kernel

-- =============================================================== slices

/-- The slice of a text that is a word. A number is read from the slice as
it is, a string is what stands between its quotes, and a name and a sign
are the slice itself. -/
inductive Denotes : (slice : List Char) → Word → Prop
  | number {slice : List Char} (numeral : IsNumeral slice) :
      Denotes slice (.number, .number (.ofLiteral false slice))
  | string {quote : Char} {content : List Char} (opens : isQuote quote = true)
      (free : quote ∉ content) :
      Denotes (quote :: (content ++ [quote])) (.string, .text (String.ofList content))
  | identifier {first : Char} {rest : List Char} (starts : startsName first = true)
      (continues : ∀ c ∈ rest, continuesName c = true) :
      Denotes (first :: rest) (.identifier, .text (String.ofList (first :: rest)))
  | sign {kind : TokenKind} {c : Char} (signs : TokenKind.ofSymbol? c = some kind) :
      Denotes [c] (kind, .symbol c)

variable {position : Nat} {c : Char} {cs more back : List Char} {word : Word}

theorem Denotes.ne_nil {slice : List Char} (h : Denotes slice word) : slice ≠ [] := by
  cases h with
  | number numeral => exact numeral.nonempty
  | string | identifier | sign => exact List.cons_ne_nil _ _

/-- What a number token carries has no sign, and is no number only for the
lone point. -/
theorem Denotes.number_value {slice : List Char} {kind : TokenKind} {x : Binary64}
    (h : Denotes slice (kind, .number x)) : x.isNegative = false ∧ (x = .nan ↔ slice = ['.']) := by
  cases h with
  | number numeral => exact ⟨ofLiteral_isNegative _, numeral.ofLiteral_eq_nan_iff⟩

/-- A slice with nothing behind it that its token would take is scanned as
its word. -/
theorem scan_of_denotes (h : Denotes (c :: more) word) (hapart : Apart word.1 back)
    (position : Nat) : scan position c (more ++ back) = .ok ⟨some word, more⟩ := by
  have halone : scan position c more = .ok ⟨some word, more⟩ := by
    cases h with
    | number numeral =>
      exact scan_number (numeral.marks c List.mem_cons_self) numeral.numeral_eq position
    | string opens free => exact scan_string opens free position
    | identifier starts continues => exact scan_name starts continues position
    | sign signs => exact scan_sign signs position []
  refine scan_append halone fun _ kind payload hword => ?_
  cases hword
  exact hapart

theorem scanNumber_denotes (hnumber : startsNumber c = true)
    (h : scanNumber position (c :: (more ++ back)) = .ok ⟨some word, more⟩) :
    Denotes (c :: more) word ∧ Apart word.1 back := by
  unfold scanNumber at h
  dsimp only at h
  split at h
  · cases h
  · next hpoint =>
    injection h with h
    injection h with hword hmore
    injection hword with hword
    have hslice : numeral (c :: (more ++ back)) = c :: more := by
      obtain ⟨d, ds, hds⟩ := List.exists_cons_of_ne_nil (numeral_ne_nil hnumber (more ++ back))
      obtain ⟨rest, hrest⟩ := numeral_front (c :: (more ++ back))
      rw [hds] at hmore hrest ⊢
      rw [List.cons_append, List.cons.injEq] at hrest
      rw [hrest.1, ← hmore, List.tail_cons]
    rw [hslice] at hpoint hword
    subst hword
    rw [← List.cons_append, List.drop_left] at hpoint
    have hsplit : c :: (more ++ back) = numeral (c :: (more ++ back)) ++ back := by
      rw [hslice, List.cons_append]
    exact ⟨.number (hslice ▸ isNumeral_numeral hnumber _), apart_numeral hsplit hpoint⟩

theorem scanString_denotes (hquote : isQuote c = true)
    (h : scanString position c (more ++ back) = .ok ⟨some word, more⟩) :
    Denotes (c :: more) word ∧ Apart word.1 back := by
  unfold scanString at h
  dsimp only at h
  split at h
  · injection h with h
    injection h with hword hmore
    injection hword with hword
    have hfree := not_mem_takeWhile_ne c (more ++ back)
    generalize (more ++ back).takeWhile (· != c) = content at hword hmore hfree
    subst hword hmore
    exact ⟨.string hquote hfree, fun _ _ => rfl⟩
  · cases h

theorem scanName_denotes (hname : startsName c = true)
    (h : scanName c (more ++ back) = ⟨some word, more⟩) :
    Denotes (c :: more) word ∧ Apart word.1 back := by
  injection h with hword hmore
  injection hword with hword
  have hback : (more ++ back).dropWhile continuesName = back := by
    have hsplit := List.takeWhile_append_dropWhile (p := continuesName) (l := more ++ back)
    rw [hmore] at hsplit
    exact List.append_cancel_left hsplit
  have hrun := List.all_takeWhile (p := continuesName) (l := more ++ back)
  rw [hmore] at hword hrun
  subst hword
  refine ⟨.identifier hname (List.all_eq_true.1 hrun), fun d hd => ?_⟩
  rw [← hback] at hd
  exact stop_of_mem_head?_dropWhile hd

/-- What is scanned as a word is a slice that is this word, and there is
nothing behind it that its token would take. -/
theorem scan_denotes (h : scan position c (more ++ back) = .ok ⟨some word, more⟩) :
    Denotes (c :: more) word ∧ Apart word.1 back := by
  unfold scan at h
  split at h
  · next hnumber => exact scanNumber_denotes hnumber h
  · split at h
    · next hquote => exact scanString_denotes hquote h
    · split at h
      · next hname =>
        injection h with h
        exact scanName_denotes hname h
      · split at h
        · next kind hkind =>
          injection h with h
          injection h with hword hmore
          injection hword with hword
          subst hword hmore
          exact ⟨.sign hkind, fun d _ => merges_sign hkind d⟩
        · split at h <;> cases h

/-- No blank is a visible character of ASCII. -/
theorem isBlank_outside (h : Text.isBlank c = true) : c.toNat ≤ 32 ∨ 127 ≤ c.toNat := by
  simp only [Text.isBlank, Text.whiteSpace, Text.Ranges.contains, List.any_cons, List.any_nil,
    Bool.or_eq_true, Bool.and_eq_true, decide_eq_true_eq, Bool.or_false] at h
  omega

/-- Whatever begins a token is a visible character of ASCII. -/
theorem isVisible_of_starts (h : startsNumber c = true ∨ isQuote c = true ∨ startsName c = true ∨
    (TokenKind.ofSymbol? c).isSome = true) : 33 ≤ c.toNat ∧ c.toNat ≤ 126 := by
  have hval : c.toNat = c.val.toNat := rfl
  rcases h with h | h | h | h
  · simp only [startsNumber, Char.isDigit, Bool.or_eq_true, Bool.and_eq_true, decide_eq_true_eq,
      beq_iff_eq, UInt32.le_iff_toNat_le] at h
    rcases h with ⟨hlow, hhigh⟩ | rfl
    · have h0 : '0'.val.toNat = 48 := rfl
      have h9 : '9'.val.toNat = 57 := rfl
      omega
    · decide
  · rcases isQuote_iff.1 h with rfl | rfl <;> decide
  · unfold startsName Char.isAlpha Char.isUpper Char.isLower at h
    simp only [Bool.or_eq_true, Bool.and_eq_true, decide_eq_true_eq, beq_iff_eq,
      UInt32.le_iff_toNat_le] at h
    have hA : 'A'.val.toNat = 65 := rfl
    have hZ : 'Z'.val.toNat = 90 := rfl
    have ha : 'a'.val.toNat = 97 := rfl
    have hz : 'z'.val.toNat = 122 := rfl
    rcases h with ((h | h) | rfl) | rfl
    · omega
    · omega
    · decide
    · decide
  · unfold TokenKind.ofSymbol? at h
    repeat' split at h
    all_goals first
      | (rename_i hc; rcases hc with rfl | rfl | rfl | rfl <;> decide)
      | cases h

/-- A blank is scanned as no word, and nothing else is. -/
theorem scan_blank_iff : scan position c cs = .ok ⟨none, more⟩ ↔
    Text.isBlank c = true ∧ more = [] := by
  constructor
  · intro h
    unfold scan at h
    split at h
    · unfold scanNumber at h
      dsimp only at h
      split at h <;> cases h
    · split at h
      · unfold scanString at h
        dsimp only at h
        split at h <;> cases h
      · split at h
        · cases h
        · split at h
          · cases h
          · split at h
            · next hblank => cases h; exact ⟨hblank, rfl⟩
            · cases h
  · rintro ⟨hblank, rfl⟩
    have houtside := isBlank_outside hblank
    have hstarts {p : Prop} (h : p → 33 ≤ c.toNat ∧ c.toNat ≤ 126) : ¬ p := by
      intro hp
      have hvisible := h hp
      omega
    have hsign : TokenKind.ofSymbol? c = none := by
      rw [← Option.not_isSome_iff_eq_none]
      exact hstarts fun h => isVisible_of_starts (.inr (.inr (.inr h)))
    unfold scan
    rw [if_neg (hstarts fun h => isVisible_of_starts (.inl h)),
      if_neg (hstarts fun h => isVisible_of_starts (.inr (.inl h))),
      if_neg (hstarts fun h => isVisible_of_starts (.inr (.inr (.inl h)))), hsign]
    exact if_pos hblank

end Reckoner.Lexer
