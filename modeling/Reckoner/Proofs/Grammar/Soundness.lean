/-
What a single reading shows. The statements of a program that are read
have a derivation: they are the yield of one whose tree is the answer and
which is no deeper than the limit. Together with completeness this pins
down what is accepted. Where reading stops for another reason than its
depth, the tokens taken so far are the beginning of a program, and what is
asked for instead of the next token is not what the next token is.

All of this is one course, about the first reader alone: where it answers,
what is said of the answer holds, and where it stops, it was refused for
one of the reasons there are.

The tokens have to agree with themselves for there to be derivations. What
is next behind a product, and what a refusal looks like, is known of any
tokens.
-/
import Reckoner.Proofs.Grammar.Course

namespace Reckoner

open Reckoner.Derivation

namespace Parser

variable {α : Type} {limit : Nat} {tokens rest : List Token} {obstacle : Obstacle}

-- ========================================================== one reading

/-- A reader comes to an answer of which this holds, or it was refused. -/
structure ComesTo (limit : Nat) (tokens : List Token) (run : Reader α) (ts : List Token)
    (post : α → List Token → Prop) : Prop where
  answers : ∀ ⦃a rest⦄, run ts = .ok (a, rest) → post a rest
  refuses : ∀ ⦃obstacle rest⦄, run ts = .error ⟨obstacle, rest⟩ →
    Refused limit tokens obstacle rest

/-- The course of a single reading. -/
def Course.reading (limit : Nat) (tokens : List Token) : Course limit tokens .own 0 where
  Holds run _ ts post := ComesTo limit tokens run ts post
  ok h := ⟨by rintro _ _ ⟨⟩; exact h, nofun⟩
  refuse h := ⟨nofun, by rintro _ _ ⟨⟩; exact h⟩
  mismatch hnext hmismatch hreached :=
    ⟨nofun, by rintro _ _ ⟨⟩; exact ⟨.mismatched hnext hmismatch, hreached, nofun⟩⟩
  deep h _ := ⟨nofun, by rintro _ _ ⟨⟩; exact h⟩
  bind h hnext := by
    refine ⟨fun b rest hread => ?_, fun obstacle rest hread => ?_⟩
    · obtain ⟨⟨a, left⟩, hfirst, hsecond⟩ := bind_eq_ok hread
      exact (hnext a left hfirst (h.answers hfirst)).answers hsecond
    · rcases bind_eq_error hread with hfirst | ⟨⟨a, left⟩, hfirst, hsecond⟩
      · exact h.refuses hfirst
      · exact (hnext a left hfirst (h.answers hfirst)).refuses hsecond
  look _ _ h := ⟨fun _ _ hread => h.answers hread, fun _ _ hread => h.refuses hread⟩
  take h := ⟨fun _ _ hread => h.answers hread, fun _ _ hread => h.refuses hread⟩

theorem statements_comesTo (limit : Nat) (tokens : List Token) :
    ComesTo limit tokens (statements (statement (Grammar.ofDepth limit).expression)) tokens
      (Takes tokens .program limit tokens) :=
  (Course.reading limit tokens).statements (awaits_program tokens) (Nat.le_refl _)

/-- What is read has a derivation that fits the limit. -/
theorem statements_sound (limit : Nat) {ss : List Statement} (hagree : Agreeing tokens)
    (h : statements (statement (Grammar.ofDepth limit).expression) tokens = .ok (ss, rest)) :
    ∃ front, tokens = front ++ rest ∧
      ∃ d : OfProgram, d.yield = front ∧ d.statements = ss ∧ d.depth ≤ limit := by
  obtain ⟨front, htokens, hd⟩ := (statements_comesTo limit tokens).answers h
  exact ⟨front, htokens, hd hagree⟩

-- ====================================================== what is asked for

/-- The obstacle is that none of the tokens asked for is next. -/
def Asks (obstacle : Obstacle) (tokens : List Token) : Prop :=
  ∃ expected, obstacle = .unexpected expected ∧ Missing expected tokens

/-- What a rule asks for is not what is next, if the next token agrees
with itself. -/
theorem RefusedAt.asks (h : RefusedAt obstacle tokens) (hagree : Agreeing tokens)
    (hdepth : obstacle ≠ .tooDeep) : Asks obstacle tokens := by
  cases h with
  | start hstarts => exact ⟨_, rfl, missing_expressionStarts hstarts⟩
  | mismatched hnext hmismatch =>
    rw [hagree _ (List.mem_of_mem_head? hnext)] at hmismatch
    cases hmismatch
  | arguments hstarts hopen =>
    exact ⟨_, rfl, missing_append (missing_expressionStarts hstarts) (missing_symbol hopen)⟩
  | factor hnone hends => exact ⟨_, rfl, missing_afterFactor hagree hnone hends⟩
  | item closers hends hnone => exact ⟨_, rfl, missing_symbols hnone⟩
  | sign c hnone => exact ⟨_, rfl, missing_symbol hnone⟩
  | tooDeep => exact absurd rfl hdepth

/-- Where reading stops for another reason than its depth, it has taken the
beginning of a program and asks for what is not next. -/
theorem statements_halts (limit : Nat) (hagree : Agreeing tokens)
    (h : statements (statement (Grammar.ofDepth limit).expression) tokens
      = .error ⟨obstacle, rest⟩) (hdepth : obstacle ≠ .tooDeep) :
    ∃ front, tokens = front ++ rest ∧ Begun OfProgram.yield front ∧ Asks obstacle rest := by
  have hrefused := (statements_comesTo limit tokens).refuses h
  obtain ⟨front, htokens, hbegun⟩ := hrefused.reached
  exact ⟨front, htokens, hbegun hagree,
    hrefused.refused.asks (hrefused.reached.agreeing hagree) hdepth⟩

/-- A statement takes tokens from the front. -/
theorem statement_takes {n : Nat} {s : Statement}
    (h : (statement (Grammar.ofDepth n).expression).run tokens = .ok (s, rest)) :
    Takes tokens .statement n tokens s rest := by
  have hawaits : Awaits tokens .statement tokens := ((awaits_program tokens).via .ended).first
  have hread : ComesTo n tokens _ tokens _ := (Course.reading n tokens).row
    ((Course.reading n tokens).level n).expression [';', ')'] hawaits (Nat.le_refl _)
  exact hread.answers h

/-- Behind a product is always an operator of a sum or a sign that can
follow an operand. -/
theorem product_next {n : Nat} {e : Expr}
    (h : (Grammar.ofDepth n).product.run tokens = .ok (e, rest)) : BehindProduct rest := by
  have hawaits : Awaits tokens .product tokens :=
    (((awaits_program tokens).via .ended).first.via .item).via .plain |>.via .summand
  have hread : ComesTo n tokens _ tokens _ :=
    ((Course.reading n tokens).level n).product tokens hawaits (by omega)
  exact (hread.answers h).1

end Parser

end Reckoner
