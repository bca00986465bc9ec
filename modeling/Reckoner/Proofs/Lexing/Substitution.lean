/-
Semicolons put in the place of commas in a text. Both are signs of one
byte that nothing runs over, so where commas are tokens of their own, the
tokens of the new text are those of the old one with semicolons among
them, each where the comma was. A comma within a string is no token, and
stays.
-/
import Reckoner.Proofs.Lexing.Pieces

namespace Reckoner

namespace Text

-- ================================================================ texts

/-- A text that begins at `position`, with a semicolon for each comma at
one of the places. -/
def semicolonsAt (places : List Nat) (position : Nat) : List Char → List Char
  | [] => []
  | c :: cs =>
    (if c = ',' ∧ position ∈ places then ';' else c) ::
      semicolonsAt places (position + c.utf8Size) cs

variable {places : List Nat}

theorem semicolonsAt_append (position : Nat) (cs ds : List Char) :
    semicolonsAt places position (cs ++ ds) = semicolonsAt places position cs ++
      semicolonsAt places (position + byteLength cs) ds := by
  induction cs generalizing position with
  | nil => rfl
  | cons c cs ih =>
    rw [List.cons_append, semicolonsAt, ih, semicolonsAt, byteLength_cons, Nat.add_assoc,
      List.cons_append]

/-- A semicolon is as wide as a comma. -/
theorem byteLength_semicolonsAt (position : Nat) (cs : List Char) :
    byteLength (semicolonsAt places position cs) = byteLength cs := by
  induction cs generalizing position with
  | nil => rfl
  | cons c cs ih =>
    have hwidth : (if c = ',' ∧ position ∈ places then ';' else c).utf8Size = c.utf8Size := by
      split
      · next hc => rw [hc.1]; rfl
      · rfl
    rw [semicolonsAt, byteLength_cons, byteLength_cons, hwidth, ih]

/-- Without a place in it, a text stays as it is. -/
theorem semicolonsAt_eq_self {position : Nat} {cs : List Char}
    (h : ∀ place ∈ places, place < position ∨ position + byteLength cs ≤ place) :
    semicolonsAt places position cs = cs := by
  induction cs generalizing position with
  | nil => rfl
  | cons c cs ih =>
    have hsize := c.utf8Size_pos
    have hhere : position ∉ places := by
      intro hplace
      have hout := h position hplace
      rw [byteLength_cons] at hout
      omega
    have hbehind : semicolonsAt places (position + c.utf8Size) cs = cs := ih fun place hplace => by
      have hout := h place hplace
      rw [byteLength_cons] at hout
      omega
    rw [semicolonsAt, if_neg fun hc => hhere hc.2, hbehind]

theorem mem_head?_semicolonsAt {position : Nat} {cs : List Char} {d : Char}
    (h : d ∈ (semicolonsAt places position cs).head?) : d = ';' ∨ d ∈ cs.head? := by
  cases cs with
  | nil => cases h
  | cons c cs =>
    have hd : (if c = ',' ∧ position ∈ places then ';' else c) = d := Option.some.inj h
    split at hd
    · exact .inl hd.symm
    · exact .inr (congrArg some hd)

end Text

-- =============================================================== tokens

/-- The semicolon in the place of the token. -/
def Token.asSemicolon (t : Token) : Token := ⟨.semicolon, .symbol ';', t.span⟩

/-- The token, or the semicolon for it if it begins at one of the
places. -/
def Token.semicolonAt (places : List Nat) (t : Token) : Token :=
  if t.span.start ∈ places then t.asSemicolon else t

namespace Lexer

variable {places : List Nat}

/-- What a token is kept apart from, it is kept apart from with semicolons
put in. -/
theorem Apart.semicolonsAt {kind : TokenKind} {cs : List Char} (h : Apart kind cs)
    (position : Nat) : Apart kind (Text.semicolonsAt places position cs) := by
  intro d hd
  rcases Text.mem_head?_semicolonsAt hd with rfl | hd
  · cases kind <;> decide
  · exact h d hd

/-- A comma is one character. -/
theorem Denotes.comma {c : Char} {more : List Char} {word : Word} (h : Denotes (c :: more) word)
    (hcomma : word.1 = .comma) : c = ',' ∧ more = [] := by
  cases h with
  | number | string | identifier => cases hcomma
  | @sign kind c signs =>
    obtain rfl : kind = .comma := hcomma
    refine ⟨?_, rfl⟩
    unfold TokenKind.ofSymbol? at signs
    repeat' split at signs
    all_goals first
      | assumption
      | cases signs

end Lexer

open Lexer

variable {places : List Nat}

/-- A token with no place in it stays, and a comma at a place becomes a
semicolon; either stands where it did. -/
theorem Token.Stands.semicolonsAt {position : Nat} {t : Token} {slice back : List Char}
    (h : t.Stands position [] slice back)
    (hplaces : ∀ place ∈ places, place < position ∨ position + Text.byteLength slice ≤ place ∨
      place = position ∧ t.kind = .comma) :
    (t.semicolonAt places).Stands position [] (Text.semicolonsAt places position slice)
      (Text.semicolonsAt places (position + Text.byteLength slice) back) := by
  obtain ⟨hspan, hdenotes, hapart⟩ := h
  rw [Text.byteLength_nil, Nat.add_zero] at hspan
  have hstart : t.span.start = position := congrArg Span.start hspan
  unfold Token.semicolonAt
  rw [hstart]
  by_cases hhere : position ∈ places
  · have hcomma : t.kind = .comma := by
      have hpos := Text.byteLength_pos hdenotes.ne_nil
      rcases hplaces position hhere with hbefore | hbehind | ⟨-, hcomma⟩
      · exact absurd hbefore (Nat.lt_irrefl _)
      · omega
      · exact hcomma
    obtain ⟨c, more, rfl⟩ := List.exists_cons_of_ne_nil hdenotes.ne_nil
    obtain ⟨rfl, rfl⟩ := hdenotes.comma hcomma
    rw [if_pos hhere, Text.semicolonsAt, if_pos ⟨rfl, hhere⟩]
    exact ⟨hspan, .sign rfl, fun _ _ => rfl⟩
  · have hsame : Text.semicolonsAt places position slice = slice := by
      refine Text.semicolonsAt_eq_self fun place hplace => ?_
      rcases hplaces place hplace with hbefore | hbehind | ⟨rfl, -⟩
      · exact .inl hbefore
      · exact .inr hbehind
      · exact absurd hplace hhere
    rw [if_neg hhere, hsame]
    exact ⟨hspan, hdenotes, hapart.semicolonsAt _⟩

/-- Where the places are those of commas, the tokens become semicolons
there. -/
theorem Lexer.tokensFrom_semicolonsAt {position : Nat} {cs : List Char} {tokens : List Token}
    (h : tokensFrom position cs = .ok tokens)
    (hplaces : ∀ place ∈ places, position ≤ place →
      ∃ t ∈ tokens, t.kind = .comma ∧ t.span.start = place) :
    tokensFrom position (Text.semicolonsAt places position cs)
      = .ok (tokens.map (Token.semicolonAt places)) := by
  cases cs with
  | nil =>
    rw [tokensFrom_nil] at h
    cases h
    exact tokensFrom_nil position
  | cons c cs =>
    obtain ⟨⟨meaning, more⟩, rest, others, hscan, rfl, hothers, rfl⟩ := tokensFrom_cons_ok h
    cases meaning with
    | none =>
      obtain ⟨hblank, rfl⟩ := scan_blank_iff.1 hscan
      have hcomma : c ≠ ',' := by
        rintro rfl
        cases hblank
      have ih := tokensFrom_semicolonsAt hothers fun place hplace hle =>
        hplaces place hplace (Nat.le_trans (Nat.le_add_right ..) hle)
      rw [List.nil_append, Text.semicolonsAt, if_neg fun hc => hcomma hc.1]
      exact tokensFrom_of_tiles (.cons_blank hblank (tiles_of_tokensFrom ih))
    | some word =>
      obtain ⟨hdenotes, hapart⟩ := scan_denotes hscan
      have hstands : Token.Stands ⟨word.1, word.2,
          ⟨position, position + Text.byteLength (c :: more)⟩⟩ position [] (c :: more) rest :=
        ⟨rfl, hdenotes, hapart⟩
      -- a place that is not before the slice is its own or one behind it
      have hfirst (place : Nat) (hplace : place ∈ places) (hle : position ≤ place) :
          place = position ∧ word.1 = .comma ∨
            position + Text.byteLength (c :: more) ≤ place ∧
              ∃ t ∈ others, t.kind = .comma ∧ t.span.start = place := by
        obtain ⟨t, ht, hcomma, hstart⟩ := hplaces place hplace hle
        rcases List.mem_cons.1 ht with rfl | ht
        · exact .inl ⟨hstart.symm, hcomma⟩
        · exact .inr ⟨hstart ▸ (tiles_of_tokensFrom hothers).le_start ht, t, ht, hcomma, hstart⟩
      have hwide := Text.byteLength_pos (List.cons_ne_nil c more)
      have ih := tokensFrom_semicolonsAt hothers fun place hplace hle => by
        rcases hfirst place hplace (Nat.le_trans (Nat.le_add_right ..) hle) with
          ⟨rfl, -⟩ | ⟨-, hbehind⟩
        · dsimp only at hle
          omega
        · exact hbehind
      rw [← List.cons_append, Text.semicolonsAt_append]
      refine tokensFrom_of_tiles (.cons_token (hstands.semicolonsAt fun place hplace => ?_) ?_)
      · by_cases hle : position ≤ place
        · exact .inr ((hfirst place hplace hle).symm.imp_left And.left)
        · exact .inl (Nat.lt_of_not_le hle)
      · rw [Text.byteLength_semicolonsAt]
        exact tiles_of_tokensFrom ih
termination_by cs.length
decreasing_by
  all_goals
    subst_vars
    simp only [List.length_cons, List.length_append]
    omega

/-- In the tokens of a text no two begin at the same byte. -/
theorem Tiles.front_unique {position : Nat} {cs : List Char} {tokens : List Token}
    (h : Tiles position cs tokens) {front front' back back' : List Token} {t t' : Token}
    (hsplit : tokens = front ++ t :: back) (hsplit' : tokens = front' ++ t' :: back')
    (hstart : t.span.start = t'.span.start) : front = front' := by
  -- a token before the other one ends where that begins, at the latest
  have hapart {front more back back' : List Token} {u t t' : Token} (hsplit : tokens
      = front ++ u :: more ++ t' :: back') (hsame : u :: more ++ t' :: back' = t :: back)
      (hstart : t.span.start = t'.span.start) : False := by
    obtain ⟨rfl, -⟩ := List.cons.inj hsame
    have hu : u ∈ front ++ u :: more := List.mem_append_right _ List.mem_cons_self
    have hordered := (List.pairwise_append.1 (hsplit ▸ h.ordered)).2.2 u hu t' List.mem_cons_self
    obtain ⟨_, _, _, -, hstands⟩ := h.stands u (hsplit ▸ List.mem_append_left _ hu)
    have hwide := hstands.start_lt_stop
    omega
  rcases List.append_eq_append_iff.1 (hsplit.symm.trans hsplit') with
    ⟨more, rfl, hrest⟩ | ⟨more, rfl, hrest⟩
  · cases more with
    | nil => exact (List.append_nil front).symm
    | cons u more => exact (hapart hsplit' hrest.symm hstart).elim
  · cases more with
    | nil => exact List.append_nil front'
    | cons u more => exact (hapart hsplit hrest.symm hstart.symm).elim

end Reckoner
