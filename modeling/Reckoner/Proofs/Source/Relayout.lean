/-
Sources that differ in layout. Blanks put in or left out move the tokens of
a source, and a number or a string can be written in more ways than one;
the words are the same. So is all that comes of them: the program, what it
is worth anywhere, the calls it makes on the way, and what is wrong with
the words if they are no program.

The readings are in step already, places play no part in them. What is left
are the errors, which have places in them: that of the error itself and
that of the token that was found. Without these the two errors are one; and
the places are those of the same token in each of the sources.
-/
import Reckoner.Proofs.Source.Location
import Reckoner.Proofs.Source.Sequence

namespace Reckoner

-- ================================================== errors without places

/-- The token as if it stood nowhere. -/
def Token.unplaced (t : Token) : Token := { t with span := .point 0 }

/-- All that is left of a token is its word. -/
theorem Token.map_unplaced {found found' : Option Token}
    (h : found.map Token.word = found'.map Token.word) :
    found.map Token.unplaced = found'.map Token.unplaced := by
  have hsplit : Token.unplaced = (fun word : Word => ⟨word.1, word.2, .point 0⟩) ∘ Token.word := rfl
  rw [hsplit, ← Option.map_map, ← Option.map_map, h]

/-- The fault without the place of the token that was found. -/
def ParseFault.unplaced : ParseFault → ParseFault
  | unexpectedToken expected found => unexpectedToken expected (found.map Token.unplaced)
  | unexpectedTrailingToken found => unexpectedTrailingToken found.unplaced
  | maxDepthExceeded limit => maxDepthExceeded limit

/-- The error without any place. -/
def ParseError.unplaced (e : ParseError) : ParseError := ⟨e.fault.unplaced, .point 0⟩

/-- No place is mentioned in what is said about a fault. -/
theorem ParseFault.message_unplaced (fault : ParseFault) :
    fault.unplaced.message = fault.message := by
  cases fault with
  | unexpectedToken expected found => cases found <;> rfl
  | unexpectedTrailingToken found => rfl
  | maxDepthExceeded limit => rfl

theorem ParseFault.help_unplaced (fault : ParseFault) : fault.unplaced.help = fault.help := by
  cases fault with
  | unexpectedToken expected found => cases found <;> rfl
  | unexpectedTrailingToken found => rfl
  | maxDepthExceeded limit => rfl

theorem ParseFault.code_unplaced (fault : ParseFault) : fault.unplaced.code = fault.code := by
  cases fault <;> rfl

/-- Errors that differ in places only are reported in the same words. -/
theorem ParseError.diagnostic_eq_of_unplaced {e e' : ParseError} (h : e.unplaced = e'.unplaced) :
    { e.diagnostic with span := none } = { e'.diagnostic with span := none } := by
  have hfault : e.fault.unplaced = e'.fault.unplaced := congrArg ParseError.fault h
  simp only [ParseError.diagnostic, ← e.fault.message_unplaced, ← e.fault.help_unplaced,
    ← e.fault.code_unplaced, hfault, e'.fault.message_unplaced, e'.fault.help_unplaced,
    e'.fault.code_unplaced]

-- ================================================================ tokens

namespace Parser

variable {ts ts' : List Token}

/-- Readings that stop alike, over the same words, fail alike. -/
theorem StopsAlike.unplaced_eq {limit last last' k : Nat} {stop stop' : Stop}
    (h : StopsAlike ts ts' k stop stop') (hwords : SameWords ts ts') :
    (stop.toError limit last).unplaced = (stop'.toError limit last').unplaced := by
  have hfound := Token.map_unplaced (hwords.drop k).sameNext
  cases h with
  | same obstacle within =>
    cases obstacle with
    | unexpected expected =>
      exact congrArg (fun found => ParseError.mk (.unexpectedToken expected found) (.point 0))
        hfound
    | trailing t => exact absurd rfl (within t)
    | tooDeep => rfl
  | trailing ht ht' =>
    rw [List.head?_drop, List.head?_drop, ht, ht'] at hfound
    exact congrArg (fun t => ParseError.mk (.unexpectedTrailingToken t) (.point 0))
      (Option.some.inj hfound)

end Parser

/-- Lists of tokens with the same words are read as the same program, or
refused for the same reason at the same index. -/
theorem Program.ofTokens_alike {limit : Nat} {ts ts' : List Token}
    (hwords : Parser.SameWords ts ts') :
    (∃ p, ofTokens limit ts = .ok p ∧ ofTokens limit ts' = .ok p) ∨
      ∃ e e' i, ofTokens limit ts = .error e ∧ ofTokens limit ts' = .error e' ∧
        e.unplaced = e'.unplaced ∧ e.Stands ts i ∧ e'.Stands ts' i := by
  unfold ofTokens
  rcases Parser.program_alike hwords with
    ⟨p, hread, hread'⟩ | ⟨stop, stop', k, hread, hread', halike⟩
  · rw [hread, hread']
    exact .inl ⟨p, rfl, rfl⟩
  · rw [hread, hread']
    exact .inr ⟨_, _, k, rfl, rfl, halike.unplaced_eq hwords, .of_stopsAlike halike,
      .of_stopsAlike halike.symm⟩

-- =============================================================== sources

/-- Sources with the same words are read as the same program under every
limit, and then have the same value or error everywhere, leave the same
state behind and make the same calls. Or neither is read, with errors that
are the same but for their places; and each of these is the place of the
token with the same index in its own source, or the end of its last one. -/
theorem Engine.parse_relayout {source source' : String} {tokens tokens' : List Token}
    (h : tokenize source = .ok tokens) (h' : tokenize source' = .ok tokens')
    (hwords : tokens.map Token.word = tokens'.map Token.word) (engine : Engine) :
    (∃ p, engine.parse source = .ok p ∧ engine.parse source' = .ok p ∧
      ∀ {φ σ : Type} [HostFunction φ] (host : Host φ σ) (env : Environment φ) (state : σ),
        engine.evaluate host env source state = engine.evaluate host env source' state ∧
          engine.sourceCalls host env source state
            = engine.sourceCalls host env source' state) ∨
      ∃ e e' i, engine.parse source = .error (.parse e) ∧
        engine.parse source' = .error (.parse e') ∧ e.unplaced = e'.unplaced ∧
          e.Stands tokens i ∧ e'.Stands tokens' i := by
  rcases Program.ofTokens_alike hwords with
    ⟨p, hread, hread'⟩ | ⟨e, e', i, hread, hread', halike⟩
  · have hparse : engine.parse source = .ok p := Engine.parse_eq_ok_iff.2 ⟨tokens, h, hread⟩
    have hparse' : engine.parse source' = .ok p := Engine.parse_eq_ok_iff.2 ⟨tokens', h', hread'⟩
    refine .inl ⟨p, hparse, hparse', fun host env state => ⟨?_, ?_⟩⟩
    · rw [Engine.evaluate_of_parse hparse, Engine.evaluate_of_parse hparse']
    · rw [Engine.sourceCalls_of_parse hparse, Engine.sourceCalls_of_parse hparse']
  · exact .inr ⟨e, e', i, Engine.parse_eq_error_iff.2 (.inr ⟨tokens, e, h, hread, rfl⟩),
      Engine.parse_eq_error_iff.2 (.inr ⟨tokens', e', h', hread', rfl⟩), halike⟩

/-- A number with a point and without, blanks, and the two kinds of quotes:
once in a program, and once in what is none for want of an operator. -/
theorem Engine.parse_relayout_spelled :
    (∃ p, (default : Engine).parse "1;" = .ok p ∧ (default : Engine).parse " 1.0 ;" = .ok p) ∧
      ∃ e e', (default : Engine).parse "1'a'" = .error (.parse e) ∧
        (default : Engine).parse "1.\u3000\"a\"" = .error (.parse e') ∧
          e.unplaced = e'.unplaced ∧ e.span = ⟨1, 4⟩ ∧ e'.span = ⟨5, 8⟩ := by
  constructor
  · have htokens : tokenize "1;" = .ok [⟨.number, .number .one, ⟨0, 1⟩⟩,
        ⟨.semicolon, .symbol ';', ⟨1, 2⟩⟩] := by decide +kernel
    have htokens' : tokenize " 1.0 ;" = .ok [⟨.number, .number .one, ⟨1, 4⟩⟩,
        ⟨.semicolon, .symbol ';', ⟨5, 6⟩⟩] := by decide +kernel
    have hread : ((default : Engine).parse "1;").isOk = true := by decide +kernel
    rcases Engine.parse_relayout htokens htokens' rfl default with
      ⟨p, hp, hp', -⟩ | ⟨e, e', i, he, -⟩
    · exact ⟨p, hp, hp'⟩
    · rw [he] at hread
      cases hread
  · have htokens : tokenize "1'a'" = .ok [⟨.number, .number .one, ⟨0, 1⟩⟩,
        ⟨.string, .text "a", ⟨1, 4⟩⟩] := by decide +kernel
    have htokens' : tokenize "1.\u3000\"a\"" = .ok [⟨.number, .number .one, ⟨0, 2⟩⟩,
        ⟨.string, .text "a", ⟨5, 8⟩⟩] := by decide +kernel
    have hread : (default : Engine).parse "1'a'" = .error (.parse ⟨.unexpectedToken
        Parser.afterFactor (some ⟨.string, .text "a", ⟨1, 4⟩⟩), ⟨1, 4⟩⟩) := by decide +kernel
    rcases Engine.parse_relayout htokens htokens' rfl default with
      ⟨p, hp, -⟩ | ⟨e, e', i, he, he', hsame, hstands, hstands'⟩
    · rw [hread] at hp
      cases hp
    · rw [hread] at he
      cases he
      -- the string is the token that was found, so it is the one at the index
      have hindex : i = 1 := by
        match i, hstands.found _ _ rfl with
        | 1, _ => rfl
      subst hindex
      exact ⟨_, e', hread, he', hsame, rfl, hstands'.span⟩

end Reckoner
