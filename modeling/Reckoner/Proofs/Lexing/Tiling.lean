/-
The tokens of a text tile it. Each stands on a slice of the text that is
its word and is as long as it can be, each begins behind the one before
it, and between them there are blanks and nothing else. All this is said
of a list of tokens and a text, with no mention of how one is made from
the other; and it leaves no choice, so it is another way to say what
splitting a text into tokens is.

Both directions go along the text by the piece at its front, a blank or
the slice of a token. A tiling is put together from its front piece and a
tiling of what is behind, and taken apart into the same two.
-/
import Reckoner.Proofs.Lexing.Slices

namespace Reckoner

/-- Is the byte at this offset one of the span? -/
def Span.Covers (s : Span) (offset : Nat) : Prop := s.start ≤ offset ∧ offset < s.stop

/-- The token is the slice between the two parts of a text that begins at
`position`: it spans the bytes of the slice and no others, what it says is
what the slice denotes, and it would take nothing of what is behind. -/
structure Token.Stands (t : Token) (position : Nat) (front slice back : List Char) : Prop where
  span : t.span = ⟨position + Text.byteLength front,
    position + Text.byteLength front + Text.byteLength slice⟩
  denotes : Lexer.Denotes slice t.word
  apart : Lexer.Apart t.kind back

/-- The tokens are slices of the text, one behind the other, and whatever
they leave of it is blank. -/
structure Tiles (position : Nat) (cs : List Char) (tokens : List Token) : Prop where
  ordered : tokens.Pairwise fun t u => t.span.stop ≤ u.span.start
  stands : ∀ t ∈ tokens, ∃ front slice back,
    cs = front ++ (slice ++ back) ∧ t.Stands position front slice back
  blank : ∀ front c back, cs = front ++ c :: back →
    (∀ t ∈ tokens, ¬ t.span.Covers (position + Text.byteLength front)) → Text.isBlank c = true

namespace Text

/-- The front part of a text that is longer in bytes holds the other. -/
theorem prefix_of_byteLength_le {front front' back back' : List Char}
    (h : front ++ back = front' ++ back') (hle : byteLength front ≤ byteLength front') :
    ∃ more, front' = front ++ more ∧ back = more ++ back' := by
  rcases List.append_eq_append_iff.1 h with ⟨more, hfront, hback⟩ | ⟨more, hfront, hback⟩
  · exact ⟨more, hfront, hback⟩
  · rw [hfront, byteLength_append] at hle
    have hnil : more = [] := byteLength_eq_zero_iff.1 (by omega)
    subst hnil
    exact ⟨[], by simpa using hfront.symm, by simpa using hback.symm⟩

theorem utf8ByteSize_ofList (cs : List Char) : (String.ofList cs).utf8ByteSize = byteLength cs := by
  induction cs with
  | nil => rfl
  | cons c cs ih =>
    rw [String.ofList_cons, String.utf8ByteSize_append, String.utf8ByteSize_singleton, ih,
      byteLength_cons]

theorem byteLength_toList (s : String) : byteLength s.toList = s.utf8ByteSize := by
  rw [← utf8ByteSize_ofList, String.ofList_toList]

/-- Where a front part of a text ends, there is a boundary between two of
its characters. -/
theorem isValid_byteLength {s : String} {front back : List Char} (h : s.toList = front ++ back) :
    (⟨byteLength front⟩ : String.Pos.Raw).IsValid s := by
  refine String.Pos.Raw.isValid_iff_exists_append.2 ⟨.ofList front, .ofList back, ?_, ?_⟩
  · rw [← String.ofList_append, ← h, String.ofList_toList]
  · rw [String.rawEndPos, utf8ByteSize_ofList]

end Text

-- ======================================================= tokens in place

namespace Token.Stands

variable {t : Token} {position : Nat} {skipped front slice back : List Char}

/-- A token of what is behind a piece of text is one of the whole. -/
theorem behind_iff : t.Stands (position + Text.byteLength skipped) front slice back ↔
    t.Stands position (skipped ++ front) slice back := by
  have hoffset : position + Text.byteLength skipped + Text.byteLength front
      = position + Text.byteLength (skipped ++ front) := by
    rw [Text.byteLength_append, Nat.add_assoc]
  constructor
  · rintro ⟨hspan, hdenotes, hapart⟩
    exact ⟨hoffset ▸ hspan, hdenotes, hapart⟩
  · rintro ⟨hspan, hdenotes, hapart⟩
    exact ⟨hoffset ▸ hspan, hdenotes, hapart⟩

theorem start_lt_stop (h : t.Stands position front slice back) : t.span.start < t.span.stop := by
  have hpos := Text.byteLength_pos h.denotes.ne_nil
  rw [h.span]
  exact Nat.lt_add_of_pos_right hpos

/-- The slice of a token, on its own, is split into that token. -/
theorem tokenize_slice (h : t.Stands position front slice back) :
    tokenize (String.ofList slice) = .ok [{ t with span := ⟨0, Text.byteLength slice⟩ }] := by
  obtain ⟨-, hdenotes, -⟩ := h
  obtain ⟨c, more, rfl⟩ := List.exists_cons_of_ne_nil hdenotes.ne_nil
  have hend : Lexer.Apart t.kind [] := fun _ hd => nomatch hd
  have hscan := Lexer.scan_of_denotes hdenotes hend 0
  rw [List.append_nil] at hscan
  rw [tokenize, String.toList_ofList, Lexer.tokensFrom_cons hscan, List.drop_length,
    Lexer.tokensFrom_nil, Nat.zero_add]
  rfl

end Token.Stands

-- ================================================= the piece at the front

namespace Tiles

variable {position : Nat} {c : Char} {cs skipped slice back : List Char} {t : Token}
  {tokens others : List Token}

theorem nil : Tiles position [] [] :=
  ⟨.nil, nofun, fun front _ _ h => by cases front <;> cases h⟩

/-- Nothing but blanks is without tokens. -/
theorem nil_inv (h : Tiles position [] tokens) : tokens = [] := by
  refine List.eq_nil_iff_forall_not_mem.2 fun t ht => ?_
  obtain ⟨front, slice, back, hsplit, hstands⟩ := h.stands t ht
  have hslice : slice = [] := by
    cases front <;> cases slice <;> first | rfl | cases hsplit
  exact hstands.denotes.ne_nil hslice

/-- A blank in front. -/
theorem cons_blank (hblank : Text.isBlank c = true)
    (h : Tiles (position + Text.byteLength [c]) cs tokens) : Tiles position (c :: cs) tokens := by
  refine ⟨h.ordered, fun t ht => ?_, fun front d rest hsplit hfree => ?_⟩
  · obtain ⟨front, slice, back, rfl, hstands⟩ := h.stands t ht
    exact ⟨c :: front, slice, back, rfl, Token.Stands.behind_iff.1 hstands⟩
  · cases front with
    | nil =>
      obtain ⟨rfl, -⟩ := List.cons.inj hsplit
      exact hblank
    | cons e front =>
      obtain ⟨rfl, hrest⟩ := List.cons.inj hsplit
      refine h.blank front d rest hrest fun u hu => ?_
      have hu := hfree u hu
      rwa [Text.byteLength_cons, ← Nat.add_assoc] at hu

/-- A token in front. -/
theorem cons_token (ht : t.Stands position [] slice back)
    (h : Tiles (position + Text.byteLength slice) back tokens) :
    Tiles position (slice ++ back) (t :: tokens) := by
  have hstop : t.span = ⟨position, position + Text.byteLength slice⟩ := ht.span
  refine ⟨List.pairwise_cons.2 ⟨fun u hu => ?_, h.ordered⟩, fun u hu => ?_,
    fun front d rest hsplit hfree => ?_⟩
  · obtain ⟨front, slice', back', -, hstands⟩ := h.stands u hu
    rw [hstop, hstands.span]
    exact Nat.le_add_right ..
  · rcases List.mem_cons.1 hu with rfl | hu
    · exact ⟨[], slice, back, rfl, ht⟩
    · obtain ⟨front, slice', back', rfl, hstands⟩ := h.stands u hu
      exact ⟨slice ++ front, slice', back', (List.append_assoc ..).symm,
        Token.Stands.behind_iff.1 hstands⟩
  · -- a character that the token does not cover is behind its slice
    have hle : Text.byteLength slice ≤ Text.byteLength front := by
      have huncovered := hfree t List.mem_cons_self
      rw [hstop] at huncovered
      simp only [Span.Covers] at huncovered
      omega
    obtain ⟨more, rfl, hback⟩ := Text.prefix_of_byteLength_le hsplit hle
    refine h.blank more d rest hback fun u hu => ?_
    have hu := hfree u (List.mem_cons_of_mem t hu)
    rwa [Text.byteLength_append, ← Nat.add_assoc] at hu

/-- What is behind a piece is tiled by the tokens behind it, if the others
do not reach beyond the piece. -/
theorem behind (h : Tiles position (skipped ++ cs) (others ++ tokens))
    (hothers : ∀ u ∈ others, u.span.stop ≤ position + Text.byteLength skipped)
    (htokens : ∀ u ∈ tokens, position + Text.byteLength skipped ≤ u.span.start) :
    Tiles (position + Text.byteLength skipped) cs tokens := by
  refine ⟨(List.pairwise_append.1 h.ordered).2.1, fun u hu => ?_,
    fun front d rest hsplit hfree => ?_⟩
  · obtain ⟨front, slice, back, hsplit, hstands⟩ := h.stands u (List.mem_append_right _ hu)
    have hle : Text.byteLength skipped ≤ Text.byteLength front := by
      have hstart := htokens u hu
      rw [hstands.span] at hstart
      dsimp only at hstart
      omega
    obtain ⟨more, rfl, hcs⟩ := Text.prefix_of_byteLength_le hsplit hle
    exact ⟨more, slice, back, hcs, Token.Stands.behind_iff.2 hstands⟩
  · refine h.blank (skipped ++ front) d rest (by rw [hsplit, List.append_assoc]) fun u hu => ?_
    rw [Text.byteLength_append, ← Nat.add_assoc]
    rcases List.mem_append.1 hu with hu | hu
    · have hstop := hothers u hu
      simp only [Span.Covers]
      omega
    · exact hfree u hu

/-- Where no token begins, there is a blank. -/
theorem uncons_blank (h : Tiles position (c :: cs) tokens)
    (hlate : ∀ t ∈ tokens, position < t.span.start) :
    Text.isBlank c = true ∧ Tiles (position + Text.byteLength [c]) cs tokens := by
  constructor
  · refine h.blank [] c cs rfl fun t ht => ?_
    have hstart := hlate t ht
    simp only [Span.Covers, Text.byteLength_nil]
    omega
  · have hpiece : Tiles position ([c] ++ cs) ([] ++ tokens) := h
    refine hpiece.behind nofun fun t ht => ?_
    have hstart := hlate t ht
    obtain ⟨front, slice, back, hsplit, hstands⟩ := h.stands t ht
    rw [hstands.span] at hstart ⊢
    cases front with
    | nil => exact absurd hstart (Nat.lt_irrefl _)
    | cons d front =>
      obtain ⟨rfl, -⟩ := List.cons.inj hsplit
      simp only [Text.byteLength_cons, Text.byteLength_nil]
      omega

/-- Behind the slice of the first token, the others tile what is left. -/
theorem uncons_token (h : Tiles position (slice ++ back) (t :: tokens))
    (ht : t.Stands position [] slice back) :
    Tiles (position + Text.byteLength slice) back tokens := by
  have hspan : t.span = ⟨position, position + Text.byteLength slice⟩ := ht.span
  have hpiece : Tiles position (slice ++ back) ([t] ++ tokens) := h
  refine hpiece.behind (fun u hu => ?_) fun u hu => ?_
  · exact Nat.le_of_eq (by rw [List.mem_singleton.1 hu, hspan])
  · have hafter := (List.pairwise_cons.1 h.ordered).1 u hu
    rwa [hspan] at hafter

/-- Behind the first token, none of the others begins earlier. -/
theorem start_le (h : Tiles position cs (t :: tokens)) : ∀ u ∈ t :: tokens,
    t.span.start ≤ u.span.start := by
  intro u hu
  rcases List.mem_cons.1 hu with rfl | hu
  · exact Nat.le_refl _
  · have hafter := (List.pairwise_cons.1 h.ordered).1 u hu
    obtain ⟨_, _, _, -, hstands⟩ := h.stands t List.mem_cons_self
    have hpos := hstands.start_lt_stop
    omega

end Tiles

-- ============================================================ whole texts

/-- Is this the answer? Only answers have to be compared for that. -/
instance decidableEqOk {ε α : Type} [DecidableEq α] (result : Except ε α) (a : α) :
    Decidable (result = .ok a) :=
  match result with
  | .ok b => decidable_of_iff (b = a) ⟨congrArg _, Except.ok.inj⟩
  | .error _ => isFalse nofun

/-- Is this the refusal? Only refusals have to be compared for that. -/
instance decidableEqError {ε α : Type} [DecidableEq ε] (result : Except ε α) (e : ε) :
    Decidable (result = .error e) :=
  match result with
  | .error e' => decidable_of_iff (e' = e) ⟨congrArg _, Except.error.inj⟩
  | .ok _ => isFalse nofun

namespace Lexer

/-- The tokens that a text is split into tile it. -/
theorem tiles_of_tokensFrom {position : Nat} {cs : List Char} {tokens : List Token}
    (h : tokensFrom position cs = .ok tokens) : Tiles position cs tokens := by
  cases cs with
  | nil =>
    rw [tokensFrom_nil] at h
    injection h with h
    exact h ▸ .nil
  | cons c cs =>
    obtain ⟨⟨meaning, more⟩, rest, others, hscan, rfl, hothers, rfl⟩ := tokensFrom_cons_ok h
    have ih := tiles_of_tokensFrom hothers
    cases meaning with
    | none =>
      obtain ⟨hblank, rfl⟩ := scan_blank_iff.1 hscan
      exact .cons_blank hblank ih
    | some word =>
      obtain ⟨hdenotes, hapart⟩ := scan_denotes hscan
      have hstands : Token.Stands ⟨word.1, word.2, ⟨position,
          position + Text.byteLength (c :: more)⟩⟩ position [] (c :: more) rest :=
        ⟨rfl, hdenotes, hapart⟩
      exact .cons_token hstands ih
termination_by cs.length
decreasing_by
  subst_vars
  simp only [List.length_cons, List.length_append]
  omega

/-- A text that is tiled by tokens is split into them. -/
theorem tokensFrom_of_tiles {position : Nat} {cs : List Char} {tokens : List Token}
    (h : Tiles position cs tokens) : tokensFrom position cs = .ok tokens := by
  cases cs with
  | nil => rw [h.nil_inv, tokensFrom_nil]
  | cons c cs =>
    -- either a token begins at the first character or it is a blank
    by_cases hlate : ∀ t ∈ tokens, position < t.span.start
    · obtain ⟨hblank, hrest⟩ := h.uncons_blank hlate
      rw [tokensFrom_cons (scan_blank_iff.2 ⟨hblank, rfl⟩), List.length_nil, List.drop_zero,
        tokensFrom_of_tiles hrest]
      rfl
    · cases tokens with
      | nil => exact absurd nofun hlate
      | cons t others =>
        obtain ⟨front, slice, back, hsplit, hstands⟩ := h.stands t List.mem_cons_self
        have hfront : front = [] := by
          refine Decidable.byContradiction fun hne => hlate fun u hu => ?_
          have hpos := Text.byteLength_pos hne
          have hstart := h.start_le u hu
          rw [hstands.span] at hstart
          dsimp only at hstart
          omega
        subst hfront
        obtain ⟨d, more, rfl⟩ := List.exists_cons_of_ne_nil hstands.denotes.ne_nil
        obtain ⟨rfl, rfl⟩ : c = d ∧ cs = more ++ back := List.cons.inj hsplit
        have hwhole : Tiles position ((c :: more) ++ back) (t :: others) := h
        have hrest := tokensFrom_of_tiles (hwhole.uncons_token hstands)
        rw [tokensFrom_cons (scan_of_denotes hstands.denotes hstands.apart position),
          List.drop_left, hrest]
        have hspan : t.span = ⟨position, position + Text.byteLength (c :: more)⟩ := hstands.span
        exact congrArg (fun span => Except.ok ({ t with span := span } :: others)) hspan.symm
termination_by cs.length
decreasing_by
  all_goals
    subst_vars
    simp only [List.length_cons, List.length_append]
    omega

theorem tokensFrom_iff_tiles {position : Nat} {cs : List Char} {tokens : List Token} :
    tokensFrom position cs = .ok tokens ↔ Tiles position cs tokens :=
  ⟨tiles_of_tokensFrom, tokensFrom_of_tiles⟩

end Lexer

/-- The tokens of a source tile it, within its bytes and between its
characters. Each is told by its slice alone: the slice on its own is split
into just this token, and a number among them has no sign and is a number,
unless it is the lone point. And no other tokens tile the source. -/
theorem tokenize_tiles {source : String} {tokens : List Token} (h : tokenize source = .ok tokens) :
    Tiles 0 source.toList tokens ∧
      (∀ t ∈ tokens, t.span.start < t.span.stop ∧ t.span.stop ≤ source.utf8ByteSize ∧
        (⟨t.span.start⟩ : String.Pos.Raw).IsValid source ∧
        (⟨t.span.stop⟩ : String.Pos.Raw).IsValid source) ∧
      (∀ t ∈ tokens, ∀ front slice back, source.toList = front ++ (slice ++ back) →
        t.Stands 0 front slice back →
          tokenize (String.ofList slice) = .ok [{ t with span := ⟨0, Text.byteLength slice⟩ }] ∧
          ∀ x, t.payload = .number x → x.isNegative = false ∧ (x = .nan ↔ slice = ['.'])) ∧
      ∀ others, Tiles 0 source.toList others → others = tokens := by
  have htiles : Tiles 0 source.toList tokens := Lexer.tokensFrom_iff_tiles.1 h
  refine ⟨htiles, fun t ht => ?_, fun t _ front slice back _ hstands => ?_,
    fun others hothers => ?_⟩
  · obtain ⟨front, slice, back, hsplit, hstands⟩ := htiles.stands t ht
    have hbytes := congrArg Text.byteLength hsplit
    rw [Text.byteLength_toList, Text.byteLength_append, Text.byteLength_append] at hbytes
    have hstart := Text.isValid_byteLength hsplit
    have hstop := Text.isValid_byteLength (hsplit.trans (List.append_assoc ..).symm)
    rw [Text.byteLength_append] at hstop
    refine ⟨hstands.start_lt_stop, ?_⟩
    rw [hstands.span, Nat.zero_add]
    exact ⟨by dsimp only; omega, hstart, hstop⟩
  · refine ⟨hstands.tokenize_slice, fun x hx => ?_⟩
    have hdenotes := hstands.denotes
    rw [Token.word, hx] at hdenotes
    exact hdenotes.number_value
  · have hsplit : tokenize source = .ok others := Lexer.tokensFrom_iff_tiles.2 hothers
    exact Except.ok.inj (hsplit.symm.trans h)

/-- Blanks and letters of several bytes, points in numbers and behind a
name. -/
def mixedSource : String := "1.\u3000\"é\"$a1.;"

def mixedTokens : List Token :=
  [⟨.number, .number .one, ⟨0, 2⟩⟩, ⟨.string, .text "é", ⟨5, 9⟩⟩,
    ⟨.identifier, .text "$a1", ⟨9, 12⟩⟩, ⟨.number, .number .nan, ⟨12, 13⟩⟩,
    ⟨.semicolon, .symbol ';', ⟨13, 14⟩⟩]

theorem tokenize_mixedSource : tokenize mixedSource = .ok mixedTokens := by
  decide +kernel

theorem tokenize_tiles_mixed : tokenize mixedSource = .ok mixedTokens ∧
    Tiles 0 mixedSource.toList mixedTokens ∧
    ∀ others, Tiles 0 mixedSource.toList others → others = mixedTokens := by
  obtain ⟨htiles, -, -, hunique⟩ := tokenize_tiles tokenize_mixedSource
  exact ⟨tokenize_mixedSource, htiles, hunique⟩

end Reckoner
