/-
Where errors are placed. An error of splitting a source is about one
character, and its span is that character whatever its width. An error of
reading is placed at the token that reading stopped at, or just behind
the last one. Both kinds of place lie between characters of the source:
the first because a text is gone through character by character, the
second because tokens tile the text.

So the report of an error shows its place as it is. The clamping there is
for other spans, and makes ranges of existing bytes of them.
-/
import Reckoner.Report
import Reckoner.Proofs.Grammar.Layout
import Reckoner.Proofs.Lexing.Failure

namespace Reckoner

-- ============================================================ characters

/-- Is this the character that the failure is about? -/
def LexError.Blames : LexError → Char → Prop
  | .invalidCharacter c _, d => d = c
  | .malformedNumber _, d => d = '.'
  | .unterminatedString _, d => Lexer.isQuote d = true

/-- The span of a failure is as wide as the character. -/
theorem LexError.Blames.span_eq {e : LexError} {c : Char} (h : e.Blames c) :
    e.span = ⟨e.position, e.position + c.utf8Size⟩ := by
  cases e with
  | invalidCharacter d position =>
    obtain rfl : c = d := h
    rfl
  | malformedNumber position =>
    obtain rfl : c = '.' := h
    rfl
  | unterminatedString position =>
    rcases Lexer.isQuote_iff.1 h with rfl | rfl <;> rfl

/-- The failure is about a character of the text that begins at
`position`, and stands where the character does. -/
def LexError.Stands (e : LexError) (position : Nat) (cs : List Char) : Prop :=
  ∃ front c back, cs = front ++ c :: back ∧ e.position = position + Text.byteLength front ∧
    e.Blames c

/-- A failure to split a text stands at one of its characters. -/
theorem Lexer.tokensFrom_error {position : Nat} {cs : List Char} {e : LexError}
    (h : Lexer.tokensFrom position cs = .error e) : e.Stands position cs := by
  obtain ⟨front, c, back, tokens, hsplit, hplace, -, hfault⟩ := Lexer.stopsAt_of_tokensFrom h
  refine ⟨front, c, back, hsplit, hplace.symm, ?_⟩
  generalize e.position = p at hfault
  cases hfault with
  | invalid begins => rfl
  | point second => exact second
  | quote opens => exact opens

-- ================================================================ tokens

/-- The error of a reading is placed at the token at the index, or behind
the last one if there is none at the index; and what it says it found is
the token at the index. -/
structure ParseError.Stands (e : ParseError) (tokens : List Token) (i : Nat) : Prop where
  span : e.span = (tokens[i]?.map Token.span).getD (.point (Parser.endOffset tokens))
  found : ∀ expected found, e.fault = .unexpectedToken expected found → found = tokens[i]?
  trailing : ∀ t, e.fault = .unexpectedTrailingToken t → tokens[i]? = some t

/-- Where a reading stops, its error stands. -/
theorem ParseError.Stands.of_stopsAlike {limit k : Nat} {ts ts' : List Token}
    {stop stop' : Parser.Stop} (h : Parser.StopsAlike ts ts' k stop stop') :
    (stop.toError limit (Parser.endOffset ts)).Stands ts k := by
  have hhead : (ts.drop k).head? = ts[k]? := List.head?_drop
  have hplace (obstacle : Parser.Obstacle) :
      (Parser.Stop.toError limit (Parser.endOffset ts) ⟨obstacle, ts.drop k⟩).span
        = (ts[k]?.map Token.span).getD (.point (Parser.endOffset ts)) := by
    rw [← hhead]
    unfold Parser.Stop.toError
    dsimp only
    cases ts.drop k <;> rfl
  cases h with
  | same obstacle within =>
    refine ⟨hplace obstacle, ?_, ?_⟩
    · intro expected found hfault
      cases obstacle <;> cases hfault
      exact hhead
    · intro t hfault
      cases obstacle <;> cases hfault
      exact absurd rfl (within t)
  | trailing found found' =>
    refine ⟨hplace _, nofun, ?_⟩
    rintro t ⟨rfl⟩
    exact found

theorem Program.ofTokens_error {limit : Nat} {tokens : List Token} {e : ParseError}
    (h : Program.ofTokens limit tokens = .error e) : ∃ i, e.Stands tokens i := by
  rw [Program.ofTokens] at h
  rcases Parser.program_alike rfl with ⟨p, hread, -⟩ | ⟨stop, stop', k, hread, -, halike⟩
  · rw [hread] at h
    cases h
  · rw [hread] at h
    cases h
    exact ⟨k, .of_stopsAlike halike⟩

-- =============================================================== sources

/-- Is the span a part of the source, from a boundary between characters to
another one? -/
structure Span.Within (s : Span) (source : String) : Prop where
  ordered : s.start ≤ s.stop
  bounded : s.stop ≤ source.utf8ByteSize
  starts : (⟨s.start⟩ : String.Pos.Raw).IsValid source
  stops : (⟨s.stop⟩ : String.Pos.Raw).IsValid source

namespace Span.Within

variable {source : String} {s : Span}

/-- A slice of a source is a part of it. -/
theorem of_slice {front slice back : List Char} (h : source.toList = front ++ (slice ++ back)) :
    (Span.mk (Text.byteLength front) (Text.byteLength front + Text.byteLength slice)).Within
      source := by
  have hstop : Text.byteLength front + Text.byteLength slice = Text.byteLength (front ++ slice) :=
    (Text.byteLength_append ..).symm
  refine ⟨Nat.le_add_right .., ?_, Text.isValid_byteLength h, ?_⟩
  · rw [← Text.byteLength_toList, h, Text.byteLength_append, Text.byteLength_append]
    dsimp only
    omega
  · dsimp only
    rw [hstop]
    rw [← List.append_assoc] at h
    exact Text.isValid_byteLength h

theorem of_char {front back : List Char} {c : Char} (h : source.toList = front ++ c :: back) :
    (Span.mk (Text.byteLength front) (Text.byteLength front + c.utf8Size)).Within source := by
  have hslice : (Span.mk (Text.byteLength front)
      (Text.byteLength front + Text.byteLength [c])).Within source := of_slice h
  rwa [Text.byteLength_cons, Text.byteLength_nil, Nat.add_zero] at hslice

theorem of_token {tokens : List Token} (h : tokenize source = .ok tokens) {t : Token}
    (ht : t ∈ tokens) : t.span.Within source := by
  obtain ⟨front, slice, back, hsource, hstands⟩ :=
    (Lexer.tokensFrom_iff_tiles.1 h).stands t ht
  rw [hstands.span, Nat.zero_add]
  exact of_slice hsource

/-- Behind the last token there is a boundary, as there is at the
beginning. -/
theorem of_end {tokens : List Token} (h : tokenize source = .ok tokens) :
    (Span.point (Parser.endOffset tokens)).Within source := by
  unfold Parser.endOffset
  cases hlast : tokens.getLast? with
  | none =>
    have hnothing : source.toList = [] ++ ([] ++ source.toList) := rfl
    exact of_slice hnothing
  | some t =>
    have ht := of_token h (List.mem_of_getLast? hlast)
    exact ⟨Nat.le_refl _, ht.bounded, ht.stops, ht.stops⟩

/-- Such a span is shown as it is. -/
theorem clamp_eq (h : s.Within source) : s.clamp (Text.byteLength source.toList) = s := by
  rw [Text.byteLength_toList]
  exact Span.clamp_of_valid h.ordered h.bounded

end Span.Within

/-- The place of an error of reading a source is a part of the source. -/
theorem ParseError.Stands.within {e : ParseError} {source : String} {tokens : List Token} {i : Nat}
    (h : e.Stands tokens i) (htokens : tokenize source = .ok tokens) : e.span.Within source := by
  rw [h.span]
  cases ht : tokens[i]? with
  | none => exact .of_end htokens
  | some t => exact .of_token htokens (List.mem_of_getElem? ht)

/-- A source that is not read is refused with a place in it, the same for
the error and for its report, which shows it as it is. If the source is
not split, the place is the character at fault; else it is the token that
reading stopped at, or the end of the last one. Whatever span is clamped,
a range of bytes that are there comes out, since its start is no further
than the end of the text. -/
theorem Engine.parse_error_located :
    (∀ {engine : Engine} {source : String} {e : Error}, engine.parse source = .error e →
      ∃ span, e.span? = some span ∧ e.diagnostic.span = some span ∧ span.Within source ∧
        span.clamp (Text.byteLength source.toList) = span ∧
        match e with
        | .lex e => ∃ front c back, source.toList = front ++ c :: back ∧ e.Blames c ∧
          span = ⟨Text.byteLength front, Text.byteLength front + c.utf8Size⟩
        | .parse e => ∃ tokens i, tokenize source = .ok tokens ∧ e.Stands tokens i
        | .eval _ => False) ∧
    ∀ (s : Span) (length : Nat), (s.clamp length).start ≤ length ∧
      (s.clamp length).start ≤ (s.clamp length).stop ∧ (s.clamp length).stop ≤ length := by
  constructor
  · intro engine source e h
    rcases Engine.parse_eq_error_iff.1 h with
      ⟨fault, htokens, rfl⟩ | ⟨tokens, fault, htokens, hread, rfl⟩
    · obtain ⟨front, c, back, hsource, hposition, hblames⟩ := Lexer.tokensFrom_error htokens
      have hspan : fault.span = ⟨Text.byteLength front, Text.byteLength front + c.utf8Size⟩ := by
        rw [hblames.span_eq, hposition, Nat.zero_add]
      have hwithin := Span.Within.of_char hsource
      rw [← hspan] at hwithin
      exact ⟨fault.span, rfl, rfl, hwithin, hwithin.clamp_eq, front, c, back, hsource, hblames,
        hspan⟩
    · obtain ⟨i, hstands⟩ := Program.ofTokens_error hread
      have hwithin := hstands.within htokens
      exact ⟨fault.span, rfl, rfl, hwithin, hwithin.clamp_eq, tokens, i, htokens, hstands⟩
  · intro s length
    have hvalid := s.clamp_valid length
    exact ⟨Nat.le_trans hvalid.1 hvalid.2, hvalid⟩

/-- A character of three bytes that begins no token, and the end of a
source that holds one of two bytes. -/
theorem Engine.parse_error_located_wide :
    (default : Engine).parse "1 + €;" = .error (.lex (.invalidCharacter '€' 4)) ∧
      (Span.mk 4 7).Within "1 + €;" ∧
      (default : Engine).parse "'é' +"
        = .error (.parse ⟨.unexpectedToken Parser.expressionStarts none, .point 6⟩) ∧
      (Span.point 6).Within "'é' +" := by
  have hlex : (default : Engine).parse "1 + €;" = .error (.lex (.invalidCharacter '€' 4)) := by
    decide +kernel
  have hparse : (default : Engine).parse "'é' +"
      = .error (.parse ⟨.unexpectedToken Parser.expressionStarts none, .point 6⟩) := by
    decide +kernel
  obtain ⟨span, hspan, -, hwithin, -⟩ := Engine.parse_error_located.1 hlex
  obtain rfl : Span.mk 4 7 = span := Option.some.inj hspan
  obtain ⟨span, hspan', -, hwithin', -⟩ := Engine.parse_error_located.1 hparse
  obtain rfl : Span.point 6 = span := Option.some.inj hspan'
  exact ⟨hlex, hwithin, hparse, hwithin'⟩

end Reckoner
