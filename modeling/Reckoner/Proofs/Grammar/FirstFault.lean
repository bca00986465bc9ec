/-
The place of a syntax error is the first where there is one. The tokens
before it are the beginning of a program, and with the token at that
place they are the beginning of none. So no error is reported late, after
a token that should not have been taken, and none early.

The two halves come from different sides. That the tokens taken so far
begin a program is a matter of how the rules take them. That nothing can
be done with the next token is one of looking ahead: if some program went
on with it, the rules would have to accept this program under a limit
that is high enough for it, and yet they refuse whatever has the same
token there.
-/
import Reckoner.Proofs.Grammar.Acceptance
import Reckoner.Proofs.Grammar.Lookahead
import Reckoner.Proofs.Lexing.Tiling

namespace Reckoner

open Reckoner.Parser Reckoner.Derivation

namespace Derivation

/-- Are the tokens a sentence of the grammar? -/
def IsProgram (tokens : List Token) : Prop := ∃ d : OfProgram, d.yield = tokens

/-- Statements behind a program make a longer program. -/
def OfProgram.append : OfProgram → OfProgram → OfProgram
  | .last s semicolon, others => .more s semicolon others
  | .more s semicolon rest, others => .more s semicolon (rest.append others)

theorem OfProgram.yield_append (d d' : OfProgram) : (d.append d').yield = d.yield ++ d'.yield := by
  induction d with
  | last s semicolon =>
    show s.yield ++ _ :: d'.yield = s.yield ++ [_] ++ d'.yield
    rw [List.append_assoc]
    rfl
  | more s semicolon rest ih =>
    show s.yield ++ _ :: (rest.append d').yield = s.yield ++ _ :: rest.yield ++ d'.yield
    rw [ih, List.append_assoc]
    rfl

/-- The program that is a primary and nothing else. -/
def OfPrimary.program (p : OfPrimary) : OfProgram :=
  .last (.last (.plain (.single (.single p)))) default

/-- A token that an expression can begin with begins a program. -/
theorem begun_of_starts {t : Token} {others : List Token} (hagree : t.agrees = true)
    (hstarts : startsExpression (t :: others) = true) : Begun OfProgram.yield [t] := by
  have hprimary : Begun OfPrimary.yield [t] := by
    obtain ⟨kind, payload, place⟩ := t
    rcases starts_sound hagree hstarts with
      ⟨x, rfl, rfl⟩ | ⟨s, rfl, rfl⟩ | ⟨name, rfl, rfl⟩ | ⟨rfl, rfl⟩
    · exact ⟨.number x place, List.prefix_rfl⟩
    · exact ⟨.text s place, List.prefix_rfl⟩
    · exact ⟨.identifier name place, List.prefix_rfl⟩
    · exact ⟨.group place default default, List.prefix_append [_] _⟩
  exact hprimary.first OfPrimary.program fun p => List.prefix_append p.yield _

end Derivation

namespace Parser

variable {limit : Nat} {obstacle : Obstacle} {front left : List Token} {t : Token}

-- ============================================================ whole programs

/-- Where a program stops, it stops in front of a token that it asks to be
another one, or behind a complete program. -/
theorem program_halts {tokens rest : List Token} (hagree : Agreeing tokens)
    (hread : program limit tokens = .error ⟨obstacle, rest⟩) (hdepth : obstacle ≠ .tooDeep) :
    ∃ front, tokens = front ++ rest ∧
      (Begun OfProgram.yield front ∧ Asks obstacle rest ∨
        IsProgram front ∧ ∃ t ∈ rest.head?, obstacle = .trailing t) := by
  rcases bind_eq_error hread with hstatements | ⟨⟨ss, left⟩, hstatements, hbehind⟩
  · obtain ⟨front, htokens, hbegun, hasks⟩ := statements_halts limit hagree hstatements hdepth
    exact ⟨front, htokens, .inl ⟨hbegun, hasks⟩⟩
  · obtain ⟨front, htokens, d, rfl, -, -⟩ := statements_sound limit hagree hstatements
    cases left with
    | nil => cases hbehind
    | cons t left =>
      cases hbehind
      exact ⟨d.yield, htokens, .inr ⟨⟨d, rfl⟩, t, rfl, rfl⟩⟩

/-- What is refused is no program, whatever comes behind the next token
and however deep programs may be. -/
theorem refused_ahead {rest rest' : List Token} {limit' : Nat}
    (hread : program limit (front ++ rest) = .error ⟨obstacle, rest⟩) (hdepth : obstacle ≠ .tooDeep)
    (hlimit : limit ≤ limit') (hhead : rest'.head? = rest.head?) :
    program limit' (front ++ rest') = .error ⟨obstacle, rest'⟩ := by
  obtain ⟨front', hfront, hsame⟩ := program_settled hlimit hdepth hread
  obtain rfl := List.append_cancel_right hfront
  exact hsame rest' hhead

/-- No program begins with what is refused and the token it is refused
for. -/
theorem not_begun (hread : program limit (front ++ t :: left) = .error ⟨obstacle, t :: left⟩)
    (hdepth : obstacle ≠ .tooDeep) : ¬ Begun OfProgram.yield (front ++ [t]) := by
  rintro ⟨d, back, hyield⟩
  -- under a limit that is high enough for it the program would be read
  have hhead : (t :: back).head? = (t :: left).head? := rfl
  have hrefused := refused_ahead hread hdepth (Nat.le_max_left limit d.depth) hhead
  have haccepted := (d.fits (max limit d.depth)).accepted (Nat.le_max_right ..)
  rw [← hyield, List.append_assoc, List.singleton_append, hrefused] at haccepted
  cases haccepted

/-- A program is refused for its depth only. -/
theorem not_isProgram {tokens rest : List Token}
    (hread : program limit tokens = .error ⟨obstacle, rest⟩) (hdepth : obstacle ≠ .tooDeep) :
    ¬ IsProgram tokens := by
  rintro ⟨d, rfl⟩
  by_cases hfits : d.depth ≤ limit
  · rw [(d.fits limit).accepted hfits] at hread
    cases hread
  · obtain ⟨left, hleft⟩ := (d.fits limit).refused hfits
    rw [hleft] at hread
    cases hread
    exact hdepth rfl

/-- Behind a complete program a token is not asked to be another one. -/
theorem not_isProgram_front {expected : List Expected} (hagree : Agreeing (front ++ t :: left))
    (hread : program limit (front ++ t :: left) = .error ⟨.unexpected expected, t :: left⟩) :
    ¬ IsProgram front := by
  rintro ⟨d, rfl⟩
  cases hstarts : startsExpression (t :: left) with
  | true =>
    -- another statement begins with the token
    have hbegun := begun_of_starts (hagree.right t List.mem_cons_self) hstarts
    refine not_begun hread nofun (hbegun.behind d.yield d.append fun d' => ?_)
    exact d.yield_append d' ▸ List.prefix_rfl
  | false =>
    have hrefused := refused_ahead hread nofun (Nat.le_max_left limit d.depth) rfl
    have hstatements := (d.reads (max limit d.depth) hstarts).accepted (Nat.le_max_right ..)
    rw [program, hstatements] at hrefused
    cases hrefused

end Parser

-- ===================================================== the first fault

/-- In the tokens of a text no two span the same bytes. -/
theorem Tiles.span_injective {position : Nat} {cs : List Char} {tokens : List Token}
    (h : Tiles position cs tokens) {i j : Nat} {t u : Token} (ht : tokens[i]? = some t)
    (hu : tokens[j]? = some u) (hspan : u.span = t.span) : j = i := by
  have hwide (v : Token) (hv : v ∈ tokens) : v.span.start < v.span.stop := by
    obtain ⟨_, _, _, -, hstands⟩ := h.stands v hv
    exact hstands.start_lt_stop
  have hordered := List.pairwise_iff_getElem.1 h.ordered
  obtain ⟨hi, rfl⟩ := List.getElem?_eq_some_iff.1 ht
  obtain ⟨hj, rfl⟩ := List.getElem?_eq_some_iff.1 hu
  have hwide := hwide _ (List.getElem_mem hi)
  rcases Nat.lt_trichotomy i j with hlt | heq | hlt
  · have hafter := hordered i j hi hj hlt
    rw [hspan] at hafter
    omega
  · exact heq.symm
  · have hafter := hordered j i hj hi hlt
    rw [hspan] at hafter
    omega

/-- The token at index `i` is the first at fault, and the error is placed
at it: what is before begins a program, and with the token it begins
none. -/
structure FirstFault (tokens : List Token) (e : ParseError) (i : Nat) (t : Token) : Prop where
  found : tokens[i]? = some t
  placed : ∀ j u, tokens[j]? = some u → (u.span = e.span ↔ j = i)
  begun : Begun OfProgram.yield (tokens.take i)
  fails : ¬ Begun OfProgram.yield (tokens.take (i + 1))

/-- A refusal in front of a token, which is not for the depth, is for the
first fault there is. -/
theorem firstFault_of_program {position limit : Nat} {cs : List Char} {front left : List Token}
    {t : Token} {obstacle : Obstacle} {e : ParseError}
    (htiles : Tiles position cs (front ++ t :: left))
    (hread : program limit (front ++ t :: left) = .error ⟨obstacle, t :: left⟩)
    (hdepth : obstacle ≠ .tooDeep) (hbegun : Begun OfProgram.yield front)
    (hspan : e.span = t.span) :
    FirstFault (front ++ t :: left) e front.length t := by
  have hfound : (front ++ t :: left)[front.length]? = some t := by
    rw [List.getElem?_append_right (Nat.le_refl _), Nat.sub_self]
    rfl
  refine ⟨hfound, fun j u hu => ⟨fun hsame => ?_, ?_⟩, ?_, ?_⟩
  · exact htiles.span_injective hfound hu (hsame.trans hspan)
  · rintro rfl
    rw [Option.some.inj (hu.symm.trans hfound), hspan]
  · rwa [List.take_left]
  · rw [List.take_length_add_append]
    exact not_begun hread hdepth

/-- Where the tokens of a source are refused, and not for their depth, the
error is the first there is. If it is placed at a token, the tokens before
it begin a program, but none begins with this token too; they are a
program themselves if the token is called a trailing one, and only then.
If no token was found, there is no program yet and there could be one with
more tokens behind the last. What is said to be expected is never what
was found. -/
theorem firstFault_of_ofTokens {source : String} {tokens : List Token} {limit : Nat}
    {e : ParseError} (htokens : tokenize source = .ok tokens)
    (h : Program.ofTokens limit tokens = .error e) :
    match e.fault with
    | .unexpectedToken expected (some t) =>
      (∃ i, FirstFault tokens e i t ∧ ¬ IsProgram (tokens.take i)) ∧
        ∀ x ∈ expected, x.admits t = false
    | .unexpectedTrailingToken t => ∃ i, FirstFault tokens e i t ∧ IsProgram (tokens.take i)
    | .unexpectedToken _ none =>
      ¬ IsProgram tokens ∧ Begun OfProgram.yield tokens ∧ e.span = .point (endOffset tokens)
    | .maxDepthExceeded _ => True := by
  have htiles : Tiles 0 source.toList tokens := Lexer.tokensFrom_iff_tiles.1 htokens
  have hagree : Agreeing tokens := fun t ht => (Lexer.tokensFrom_lexical htokens t ht).agrees
  rw [Program.ofTokens] at h
  split at h
  · cases h
  · next stop hread =>
    cases h
    obtain ⟨obstacle, rest⟩ := stop
    by_cases hdepth : obstacle = .tooDeep
    · subst hdepth
      trivial
    obtain ⟨front, rfl, ⟨hbegun, expected, rfl, hmissing⟩ | ⟨hprogram, t, ht, rfl⟩⟩ :=
      program_halts hagree hread hdepth
    · cases rest with
      | nil =>
        rw [List.append_nil] at hread ⊢
        exact ⟨not_isProgram hread hdepth, hbegun, rfl⟩
      | cons t left =>
        refine ⟨⟨front.length, firstFault_of_program htiles hread hdepth hbegun rfl, ?_⟩,
          hmissing t rfl⟩
        rw [List.take_left]
        exact not_isProgram_front hagree hread
    · obtain ⟨left, rfl⟩ := List.head?_eq_some_iff.1 ht
      obtain ⟨d, hyield⟩ := hprogram
      have hbegun : Begun OfProgram.yield front := ⟨d, hyield ▸ List.prefix_rfl⟩
      refine ⟨front.length, firstFault_of_program htiles hread hdepth hbegun rfl, d, ?_⟩
      rw [hyield, List.take_left]

def semicolon (place : Span) : Token := ⟨.semicolon, .symbol ';', place⟩

def closing (place : Span) : Token := ⟨.parenthesis, .symbol ')', place⟩

/-- The tokens of `f(1;)`. -/
def unclosedTokens : List Token :=
  [⟨.identifier, .text "f", ⟨0, 1⟩⟩, ⟨.parenthesis, .symbol '(', ⟨1, 2⟩⟩,
    ⟨.number, .number .one, ⟨2, 3⟩⟩, semicolon ⟨3, 4⟩, closing ⟨4, 5⟩]

/-- The tokens of `1;)`. -/
def trailingTokens : List Token :=
  [⟨.number, .number .one, ⟨0, 1⟩⟩, semicolon ⟨1, 2⟩, closing ⟨2, 3⟩]

/-- A semicolon within a call is the first fault, and not the parenthesis
behind it; the same parenthesis is one behind a program. -/
theorem firstFault_of_ofTokens_samples :
    (∃ i, FirstFault unclosedTokens
        ⟨.unexpectedToken [.symbol ',', .symbol ')'] (some (semicolon ⟨3, 4⟩)), ⟨3, 4⟩⟩ i
        (semicolon ⟨3, 4⟩) ∧ ¬ IsProgram (unclosedTokens.take i)) ∧
      ∃ i, FirstFault trailingTokens ⟨.unexpectedTrailingToken (closing ⟨2, 3⟩), ⟨2, 3⟩⟩ i
        (closing ⟨2, 3⟩) ∧ IsProgram (trailingTokens.take i) := by
  have hunclosed : tokenize "f(1;)" = .ok unclosedTokens := by decide +kernel
  have htrailing : tokenize "1;)" = .ok trailingTokens := by decide +kernel
  have hsemicolon : Program.ofTokens 500 unclosedTokens = .error ⟨.unexpectedToken
      [.symbol ',', .symbol ')'] (some (semicolon ⟨3, 4⟩)), ⟨3, 4⟩⟩ := by decide +kernel
  have hclosing : Program.ofTokens 500 trailingTokens
      = .error ⟨.unexpectedTrailingToken (closing ⟨2, 3⟩), ⟨2, 3⟩⟩ := by decide +kernel
  exact ⟨(firstFault_of_ofTokens hunclosed hsemicolon).1, firstFault_of_ofTokens htrailing hclosing⟩

end Reckoner
