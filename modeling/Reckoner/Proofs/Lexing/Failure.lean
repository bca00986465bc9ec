/-
Where and why a text is not split. The lexer gives up at one character,
and what it has seen by then is a text of its own that is split: so a
failure is about the front part before the character, the character, and,
for a quote alone, what is behind it. There are three ways to fail, and
each is said here of the text and of the tokens of the front part, with
nothing of the scan in it.

One way is the recursion of the lexer, since what is found behind a
lexeme is found behind the front part with the lexeme. The way back takes
the text apart at the character, which no token runs over. The second
point of a number is the exception, for it is the number before it that
cannot end there; the text is taken apart at the start of that number.

It follows that a failure has one place only, and that a text that goes
on fails as before, unless it closes the string.
-/
import Reckoner.Proofs.Lexing.Pieces

namespace Reckoner.Lexer

-- ================================================== what cannot be scanned

/-- Does nothing begin with the character: no token, and no blank either? -/
structure BeginsNothing (c : Char) : Prop where
  number : startsNumber c = false
  quote : isQuote c = false
  name : startsName c = false
  sign : TokenKind.ofSymbol? c = none
  blank : Text.isBlank c = false

/-- Why a text cannot be split at the offset `p`, where the character `c`
stands with `back` behind it, once the text before is split into tokens. -/
inductive Fault (front : List Char) (tokens : List Token) (p : Nat) (c : Char)
    (back : List Char) : LexError → Prop where
  | invalid (begins : BeginsNothing c) : Fault front tokens p c back (.invalidCharacter c p)
  /-- A point right behind a number with a point in its slice. -/
  | point {slice : List Char} {t : Token} (second : c = '.') (last : t ∈ tokens.getLast?)
      (number : t.kind = .number) (ends : t.span.stop = p) (slices : slice <:+ front)
      (begins : t.span.start + Text.byteLength slice = p) (first : '.' ∈ slice) :
      Fault front tokens p c back (.malformedNumber p)
  /-- A quote with none of its kind behind it. -/
  | quote (opens : isQuote c = true) (free : c ∉ back) :
      Fault front tokens p c back (.unterminatedString p)

/-- The text that begins at `position` is split up to the offset `p`, and
cannot be split there. -/
def StopsAt (position : Nat) (cs : List Char) (p : Nat) (e : LexError) : Prop :=
  ∃ front c back tokens, cs = front ++ c :: back ∧ position + Text.byteLength front = p ∧
    tokensFrom position front = .ok tokens ∧ Fault front tokens p c back e

variable {position p : Nat} {c : Char} {cs front slice back more : List Char}
  {tokens others : List Token} {e : LexError}

theorem Fault.position_eq (h : Fault front tokens p c back e) : e.position = p := by
  cases h <;> rfl

/-- With more in front, the fault is the same. -/
theorem Fault.behind (h : Fault front tokens p c back e) (skipped : List Char)
    (hlast : ∀ t ∈ tokens.getLast?, t ∈ others.getLast?) :
    Fault (skipped ++ front) others p c back e := by
  cases h with
  | invalid begins => exact .invalid begins
  | point second last number ends slices begins first =>
    exact .point second (hlast _ last) number ends
      (slices.trans (List.suffix_append skipped front)) begins first
  | quote opens free => exact .quote opens free

/-- With more behind, the fault is the same, unless it is a quote that is
closed by that. -/
theorem Fault.before (h : Fault front tokens p c back e)
    (hfree : e = .unterminatedString p → c ∉ more) : Fault front tokens p c (back ++ more) e := by
  cases h with
  | invalid begins => exact .invalid begins
  | point second last number ends slices begins first =>
    exact .point second last number ends slices begins first
  | quote opens free =>
    refine .quote opens fun hmem => ?_
    rcases List.mem_append.1 hmem with hmem | hmem
    · exact free hmem
    · exact hfree rfl hmem

-- =========================================================== second points

/-- A point behind a numeral is a second one, or it would be in it. -/
theorem point_mem_numeral (h : cs = numeral cs ++ '.' :: back) : '.' ∈ numeral cs := by
  rw [numeral_eq, List.append_assoc] at h
  conv at h => lhs; rw [← List.takeWhile_append_dropWhile (p := Char.isDigit) (l := cs)]
  have hrest := List.append_cancel_left h
  rw [numeral_eq]
  refine List.mem_append_right _ ?_
  unfold pointed at hrest ⊢
  split at hrest
  · exact List.mem_cons_self
  · next hnone =>
    rw [List.nil_append] at hrest
    exact absurd hrest (hnone back)

/-- A number with a point does not take another one. -/
theorem IsNumeral.numeral_append_point (h : IsNumeral slice) (hpoint : '.' ∈ slice)
    (back : List Char) : numeral (slice ++ '.' :: back) = slice := by
  obtain ⟨whole, hwhole, rfl | ⟨places, hplaces, rfl⟩⟩ := h.split
  · cases hwhole '.' hpoint
  · rw [Lexer.numeral_eq, List.append_assoc, List.takeWhile_append_of_pos hwhole,
      List.dropWhile_append_of_pos hwhole]
    show whole ++ [] ++ '.' :: (places ++ '.' :: back).takeWhile Char.isDigit = _
    rw [List.takeWhile_append_of_pos hplaces, List.append_nil]
    show whole ++ '.' :: (places ++ []) = _
    rw [List.append_nil]

/-- The slice of a number token is a number. -/
theorem Denotes.isNumeral {word : Word} (h : Denotes slice word) (hnumber : word.1 = .number) :
    IsNumeral slice := by
  cases h with
  | number numeral => exact numeral
  | string | identifier => cases hnumber
  | sign signs => exact absurd hnumber (ofSymbol?_ne signs).1

/-- A number from end to end is split into one token. -/
theorem IsNumeral.tokensFrom_eq (h : IsNumeral slice) (position : Nat) :
    tokensFrom position slice = .ok [⟨.number, .number (.ofLiteral false slice),
      ⟨position, position + Text.byteLength slice⟩⟩] := by
  have hstands : Token.Stands ⟨.number, .number (.ofLiteral false slice),
      ⟨position, position + Text.byteLength slice⟩⟩ position [] slice [] :=
    ⟨rfl, .number h, nofun⟩
  have htiles := Tiles.cons_token hstands .nil
  rw [List.append_nil] at htiles
  exact tokensFrom_of_tiles htiles

-- =================================================== what a failure comes from

theorem scanNumber_stops (hnumber : startsNumber c = true)
    (h : scanNumber position (c :: cs) = .error e) : StopsAt position (c :: cs) e.position e := by
  unfold scanNumber at h
  dsimp only at h
  split at h
  · next hpoint =>
    cases h
    obtain ⟨back, hback⟩ := List.head?_eq_some_iff.1 hpoint
    have hsplit := List.prefix_iff_eq_append.1 (numeral_front (c :: cs))
    rw [hback] at hsplit
    have hnumeral := isNumeral_numeral hnumber cs
    exact ⟨numeral (c :: cs), '.', back, _, hsplit.symm, rfl, hnumeral.tokensFrom_eq position,
      .point rfl rfl rfl rfl (List.suffix_refl _) rfl (point_mem_numeral hsplit.symm)⟩
  · cases h

/-- A scan fails for one of the reasons there are. -/
theorem scan_stops (h : scan position c cs = .error e) :
    StopsAt position (c :: cs) e.position e := by
  have hnothing := tokensFrom_nil position
  unfold scan at h
  split at h
  · next hnumber => exact scanNumber_stops hnumber h
  · next hnumber =>
    split at h
    · next hquote =>
      unfold scanString at h
      dsimp only at h
      split at h
      · cases h
      · next hfree =>
        cases h
        exact ⟨[], c, cs, [], rfl, rfl, hnothing, .quote hquote hfree⟩
    · next hquote =>
      split at h
      · cases h
      · next hname =>
        split at h
        · cases h
        · next hsign =>
          split at h
          · cases h
          · next hblank =>
            cases h
            exact ⟨[], c, cs, [], rfl, rfl, hnothing, .invalid ⟨Bool.eq_false_iff.2 hnumber,
              Bool.eq_false_iff.2 hquote, Bool.eq_false_iff.2 hname, hsign,
              Bool.eq_false_iff.2 hblank⟩⟩

/-- A text that is not split is split up to the place of the failure. -/
theorem stopsAt_of_tokensFrom {position : Nat} {cs : List Char}
    (h : tokensFrom position cs = .error e) : StopsAt position cs e.position e := by
  cases cs with
  | nil =>
    rw [tokensFrom_nil] at h
    cases h
  | cons c cs =>
    cases hscan : scan position c cs with
    | error e' =>
      rw [tokensFrom_cons_error hscan] at h
      cases h
      exact scan_stops hscan
    | ok lexeme =>
      obtain ⟨meaning, taken⟩ := lexeme
      obtain ⟨rest, rfl⟩ := more_front hscan
      rw [tokensFrom_cons hscan, List.drop_left] at h
      cases hrest : tokensFrom (position + Text.byteLength (c :: taken)) rest with
      | ok tokens =>
        rw [hrest] at h
        cases h
      | error e' =>
        rw [hrest] at h
        cases h
        obtain ⟨front, d, back, tokens, rfl, hp, htokens, hfault⟩ := stopsAt_of_tokensFrom hrest
        -- the lexeme is found in front of the shorter text as well
        have hscan' := scan_front hscan (List.prefix_append front (d :: back))
        have hfront : tokensFrom position (c :: taken ++ front) = .ok (Lexeme.prepend
            ⟨meaning, taken⟩ ⟨position, position + Text.byteLength (c :: taken)⟩ tokens) := by
          rw [List.cons_append, tokensFrom_cons hscan', List.drop_left, htokens]
          rfl
        refine ⟨c :: taken ++ front, d, back, _, ?_, ?_, hfront, hfault.behind (c :: taken)
          fun t ht => Lexeme.getLast?_prepend ht⟩
        · rw [List.append_assoc, List.cons_append]
        · rw [← hp, Text.byteLength_append, Nat.add_assoc]
termination_by cs.length
decreasing_by
  subst_vars
  simp only [List.length_cons, List.length_append]
  omega

-- =================================================== what makes it fail

/-- A character that no token runs into and that is not scanned is where
the text fails. -/
theorem tokensFrom_error_of_parts (htokens : tokensFrom position front = .ok tokens)
    (hparts : Reads.parts c = true)
    (hscan : scan (position + Text.byteLength front) c back = .error e) :
    tokensFrom position (front ++ c :: back) = .error e := by
  rw [tokensFrom_append htokens fun t _ _ => Reads.apart_of_parts hparts t.kind back,
    tokensFrom_cons_error hscan]
  rfl

theorem BeginsNothing.parts (h : BeginsNothing c) : Reads.parts c = true := by
  obtain ⟨hnumber, -, hname, -, -⟩ := h
  have hdigit : c.isDigit = false := (Bool.or_eq_false_iff.1 hnumber).1
  rw [Reads.parts, continuesName_eq, hnumber, hname, hdigit]
  rfl

theorem BeginsNothing.scan_eq (h : BeginsNothing c) (position : Nat) (cs : List Char) :
    scan position c cs = .error (.invalidCharacter c position) := by
  obtain ⟨hnumber, hquote, hname, hsign, hblank⟩ := h
  unfold scan
  rw [hnumber, hquote, hname, hsign, hblank]
  rfl

theorem parts_of_isQuote (h : isQuote c = true) : Reads.parts c = true := by
  rcases isQuote_iff.1 h with rfl | rfl <;> decide

theorem scan_unterminated (hquote : isQuote c = true) (hfree : c ∉ cs) (position : Nat) :
    scan position c cs = .error (.unterminatedString position) := by
  have hparts := parts_of_isQuote hquote
  simp only [Reads.parts, Bool.not_eq_true', Bool.or_eq_false_iff] at hparts
  unfold scan scanString
  rw [hparts.1, hquote, if_neg hfree]
  rfl

theorem scan_malformed (h : IsNumeral (c :: more)) (hpoint : '.' ∈ c :: more) (position : Nat)
    (back : List Char) : scan position c (more ++ '.' :: back)
      = .error (.malformedNumber (position + Text.byteLength (c :: more))) := by
  have hnumeral := h.numeral_append_point hpoint back
  rw [List.cons_append] at hnumeral
  unfold scan scanNumber
  rw [if_pos (h.marks c List.mem_cons_self), hnumeral]
  dsimp only
  rw [← List.cons_append, List.drop_left]
  rfl

/-- A second point makes the number before it fail, and with it the text. -/
theorem tokensFrom_error_of_point {t : Token} (htokens : tokensFrom position front = .ok tokens)
    (hlast : t ∈ tokens.getLast?) (hnumber : t.kind = .number)
    (hstop : t.span.stop = position + Text.byteLength front) (hslice : slice <:+ front)
    (hstart : t.span.start + Text.byteLength slice = position + Text.byteLength front)
    (hpoint : '.' ∈ slice) (back : List Char) : tokensFrom position (front ++ '.' :: back)
      = .error (.malformedNumber (position + Text.byteLength front)) := by
  obtain ⟨before, rfl⟩ := hslice
  have htiles := tiles_of_tokensFrom htokens
  have ht : t ∈ tokens := List.mem_of_getLast? hlast
  have hbegins : t.span.start = position + Text.byteLength before := by
    rw [Text.byteLength_append] at hstart
    omega
  have hstands : t.Stands position before slice [] := by
    refine Tiles.stands_at (by rwa [List.append_nil]) ht ?_
    rw [Nat.add_assoc, ← Text.byteLength_append, ← hbegins, ← hstop]
  have hnumeral : IsNumeral slice := hstands.denotes.isNumeral hnumber
  -- the text is taken apart where the number begins
  obtain ⟨others, more, rfl, hothers, -⟩ := tokensFrom_cut htokens fun u hu => by
    rcases htiles.eq_or_stop_le hlast hu with rfl | hbefore
    · exact .inr (Nat.le_of_eq hbegins.symm)
    · exact .inl (by omega)
  obtain ⟨d, ds, rfl⟩ := List.exists_cons_of_ne_nil hnumeral.nonempty
  have hseam (u : Token) (hu : u ∈ others.getLast?)
      (hends : u.span.stop = position + Text.byteLength before) :
      Apart u.kind (d :: ds ++ '.' :: back) :=
    htiles.apart_of_stop (List.mem_append_left _ (List.mem_of_getLast? hu)) hends
  rw [List.append_assoc, tokensFrom_append hothers hseam, List.cons_append,
    tokensFrom_cons_error (scan_malformed hnumeral hpoint _ back), Text.byteLength_append,
    Nat.add_assoc]
  rfl

/-- Where a text can be split no further, it is not split. -/
theorem tokensFrom_of_stopsAt (h : StopsAt position cs p e) :
    tokensFrom position cs = .error e := by
  obtain ⟨front, c, back, tokens, rfl, rfl, htokens, hfault⟩ := h
  cases hfault with
  | invalid begins => exact tokensFrom_error_of_parts htokens begins.parts (begins.scan_eq ..)
  | point second last number ends slices begins first =>
    subst second
    exact tokensFrom_error_of_point htokens last number ends slices begins first back
  | quote opens free =>
    exact tokensFrom_error_of_parts htokens (parts_of_isQuote opens)
      (scan_unterminated opens free _)

theorem tokensFrom_error_iff : tokensFrom position cs = .error e ∧ e.position = p ↔
    StopsAt position cs p e := by
  constructor
  · rintro ⟨h, rfl⟩
    exact stopsAt_of_tokensFrom h
  · intro h
    refine ⟨tokensFrom_of_stopsAt h, ?_⟩
    obtain ⟨front, c, back, tokens, -, -, -, hfault⟩ := h
    exact hfault.position_eq

/-- What cannot be split still cannot be if more comes behind, unless that
closes the string. -/
theorem StopsAt.append (h : StopsAt position cs p e)
    (hfree : ∀ front c back, cs = front ++ c :: back → position + Text.byteLength front = p →
      e = .unterminatedString p → c ∉ more) : StopsAt position (cs ++ more) p e := by
  obtain ⟨front, c, back, tokens, rfl, hp, htokens, hfault⟩ := h
  exact ⟨front, c, back ++ more, tokens, List.append_assoc .., hp, htokens,
    hfault.before (hfree front c back rfl hp)⟩

end Reckoner.Lexer

namespace Reckoner

-- ============================================================ whole sources

/-- The part of the source before the offset `p` is split into tokens, and
the source cannot be split at the character there. -/
def LexError.At (e : LexError) (source : String) (p : Nat) : Prop :=
  ∃ front c back tokens, source.toList = front ++ c :: back ∧ Text.byteLength front = p ∧
    tokenize (String.ofList front) = .ok tokens ∧ Lexer.Fault front tokens p c back e

theorem LexError.at_iff {e : LexError} {source : String} {p : Nat} :
    e.At source p ↔ tokenize source = .error e ∧ e.position = p := by
  refine Iff.trans ?_ Lexer.tokensFrom_error_iff.symm
  simp only [LexError.At, Lexer.StopsAt, tokenize, String.toList_ofList, Nat.zero_add]

/-- A source is not split exactly if there is a place up to which it is
split and at which it cannot be: at a character that begins nothing, at a
point behind a number that has one, or at a quote with no other behind it.
There is one such place at most, and one failure at it; and a source that
goes on behind it fails in the same way, unless it goes on with the quote
that was missing. -/
theorem tokenize_error_iff (source : String) :
    (∀ e p, tokenize source = .error e ∧ e.position = p ↔ e.At source p) ∧
      (∀ (e e' : LexError) (p p' : Nat), e.At source p → e'.At source p' → p = p' ∧ e = e') ∧
      ∀ e, tokenize source = .error e → ∀ more : String,
        (∀ front c back, source.toList = front ++ c :: back →
          e = .unterminatedString (Text.byteLength front) → c ∉ more.toList) →
          tokenize (source ++ more) = .error e := by
  refine ⟨fun e p => LexError.at_iff.symm, fun e e' p p' h h' => ?_, fun e h more hfree => ?_⟩
  · obtain ⟨htokens, rfl⟩ := LexError.at_iff.1 h
    obtain ⟨htokens', rfl⟩ := LexError.at_iff.1 h'
    obtain rfl : e = e' := Except.error.inj (htokens.symm.trans htokens')
    exact ⟨rfl, rfl⟩
  · have hstops := (Lexer.stopsAt_of_tokensFrom h).append fun front c back hsplit hp he =>
      hfree front c back hsplit (by rw [he, ← hp, Nat.zero_add])
    rw [tokenize, String.toList_append]
    exact Lexer.tokensFrom_of_stopsAt hstops

/-- A character behind a string, a point behind a number that has one, and
a quote behind a string with quotes of the other kind. The last source
still fails with another quote of that other kind behind it. -/
theorem tokenize_error_iff_kinds :
    (LexError.invalidCharacter '€' 4).At "'é'€" 4 ∧ (LexError.malformedNumber 3).At "1.5.2" 3 ∧
      (LexError.unterminatedString 4).At "'a' \"b" 4 ∧
      tokenize ("'a' \"b" ++ "'") = .error (.unterminatedString 4) := by
  have hquote : tokenize "'a' \"b" = .error (.unterminatedString 4) := by decide +kernel
  refine ⟨((tokenize_error_iff "'é'€").1 _ _).1 ⟨by decide +kernel, rfl⟩,
    ((tokenize_error_iff "1.5.2").1 _ _).1 ⟨by decide +kernel, rfl⟩,
    ((tokenize_error_iff "'a' \"b").1 _ _).1 ⟨hquote, rfl⟩,
    (tokenize_error_iff "'a' \"b").2.2 _ hquote _ fun front c back hsplit hplace => ?_⟩
  have hlength : Text.byteLength front = Text.byteLength "'a' ".toList :=
    (LexError.unterminatedString.inj hplace).symm
  have hknown : "'a' ".toList ++ '\x22' :: "b".toList = front ++ c :: back := hsplit
  obtain ⟨-, hrest⟩ := Text.append_inj_of_byteLength hknown hlength.symm
  obtain ⟨rfl, -⟩ := List.cons.inj hrest
  decide

end Reckoner
