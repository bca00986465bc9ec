/-
The token that decides. An error that says what was found is decided by
the tokens up to the one that was found: whatever stands behind it, the
error is the same, and with fewer tokens it is another result. An error
that found nothing is decided by there being no more tokens, so with more
of them it can only be one of these that is found.

This holds of tokens of any make. Whether their kinds go with what they
carry, and whether their places are in order, is nothing that a rule looks
at before it has decided.
-/
import Reckoner.Proofs.Grammar.Layout
import Reckoner.Proofs.Grammar.Limits

namespace Reckoner

/-- The token in question, of a fault that has one. -/
def ParseFault.found? : ParseFault → Option Token
  | .unexpectedToken _ found => found
  | .unexpectedTrailingToken found => some found
  | .maxDepthExceeded _ => none

namespace Parser

variable {limit : Nat} {tokens tokens' : List Token} {obstacle : Obstacle} {i : Nat} {t : Token}

/-- Where tokens are no program, reading stops in front of some index, and
a token that is called a trailing one is the one there. -/
theorem program_stops (limit : Nat) (tokens : List Token) :
    (∃ p, program limit tokens = .ok p) ∨
      ∃ obstacle i, program limit tokens = .error ⟨obstacle, tokens.drop i⟩ ∧
        ∀ t, obstacle = .trailing t → tokens[i]? = some t := by
  have hwords : SameWords tokens tokens := rfl
  rcases @program_alike limit _ _ hwords with
    ⟨p, hread, -⟩ | ⟨stop, stop', i, hread, -, hstops⟩
  · exact .inl ⟨p, hread⟩
  · cases hstops with
    | same obstacle within => exact .inr ⟨_, i, hread, fun t ht => absurd ht (within t)⟩
    | trailing found found' =>
      refine .inr ⟨_, i, hread, fun t ht => ?_⟩
      cases ht
      exact found

/-- Reading stops at the same index of every list that agrees up to the
token there. -/
theorem program_decided (hdepth : obstacle ≠ .tooDeep)
    (hread : program limit tokens = .error ⟨obstacle, tokens.drop i⟩)
    (hagree : tokens'.take (i + 1) = tokens.take (i + 1)) :
    program limit tokens' = .error ⟨obstacle, tokens'.drop i⟩ := by
  obtain ⟨front, htokens, hsame⟩ := program_settled (Nat.le_refl limit) hdepth hread
  have hfront : front = tokens'.take i := by
    have hbefore : tokens'.take i = tokens.take i := by
      have htake := congrArg (List.take i) hagree
      rwa [List.take_take, List.take_take, Nat.min_eq_left (Nat.le_succ i)] at htake
    rw [hbefore]
    exact List.append_cancel_right (htokens.symm.trans (List.take_append_drop i tokens).symm)
  have hhead : (tokens'.drop i).head? = (tokens.drop i).head? := by
    have hget := congrArg (·[i]?) hagree
    simpa only [List.getElem?_take_of_lt (Nat.lt_succ_self i), List.head?_drop] using hget
  have hread' := hsame (tokens'.drop i) hhead
  rwa [hfront, List.take_append_drop] at hread'

/-- The error in front of a token is the same whatever is behind it, and
wherever the tokens end. -/
theorem Stop.toError_of_getElem? {offset offset' : Nat} (hfound : tokens[i]? = some t)
    (hfound' : tokens'[i]? = some t) :
    Stop.toError limit offset ⟨obstacle, tokens.drop i⟩
      = Stop.toError limit offset' ⟨obstacle, tokens'.drop i⟩ := by
  rw [← List.head?_drop] at hfound hfound'
  obtain ⟨left, hleft⟩ := List.head?_eq_some_iff.1 hfound
  obtain ⟨left', hleft'⟩ := List.head?_eq_some_iff.1 hfound'
  rw [hleft, hleft']
  rfl

/-- An error with a token in question is the stop in front of this
token. -/
theorem program_of_found {e : ParseError} (h : Program.ofTokens limit tokens = .error e)
    (hfound : e.fault.found? = some t) :
    ∃ obstacle i, obstacle ≠ .tooDeep ∧ tokens[i]? = some t ∧ e.span = t.span ∧
      program limit tokens = .error ⟨obstacle, tokens.drop i⟩ := by
  rw [Program.ofTokens] at h
  rcases program_stops limit tokens with ⟨p, hread⟩ | ⟨obstacle, i, hread, htrailing⟩
  · rw [hread] at h
    cases h
  · rw [hread] at h
    cases h
    suffices obstacle ≠ .tooDeep ∧ tokens[i]? = some t by
      obtain ⟨hdepth, hget⟩ := this
      obtain ⟨left, hleft⟩ := List.head?_eq_some_iff.1 (List.head?_drop.trans hget)
      refine ⟨obstacle, i, hdepth, hget, ?_, hread⟩
      rw [hleft]
      rfl
    cases obstacle with
    | unexpected expected => exact ⟨by simp, List.head?_drop.symm.trans hfound⟩
    | trailing found =>
      cases hfound
      exact ⟨by simp, htrailing t rfl⟩
    | tooDeep => cases hfound

end Parser

open Reckoner.Parser

/-- The token at index `i` decides on the error, which is placed at it.
Every list that agrees up to this token fails in the same way, and the
tokens before it do not, however many of them are taken. -/
structure DecidedAt (limit : Nat) (tokens : List Token) (e : ParseError) (i : Nat) (t : Token) :
    Prop where
  found : tokens[i]? = some t
  placed : e.span = t.span
  settled : ∀ tokens' : List Token, tokens'.take (i + 1) = tokens.take (i + 1) →
    Program.ofTokens limit tokens' = .error e
  unsettled : ∀ k ≤ i, Program.ofTokens limit (tokens.take k) ≠ .error e

section Decided

variable {limit : Nat} {tokens : List Token} {e : ParseError} {t : Token}

/-- A token in question is the one that decides. -/
theorem decidedAt_of_found (h : Program.ofTokens limit tokens = .error e)
    (hfound : e.fault.found? = some t) : ∃ i, DecidedAt limit tokens e i t := by
  obtain ⟨obstacle, i, hdepth, hget, hspan, hread⟩ := program_of_found h hfound
  refine ⟨i, hget, hspan, fun tokens' hagree => ?_, fun k hk hfails => ?_⟩
  · have hget' : tokens'[i]? = some t := by
      have hget' := congrArg (·[i]?) hagree
      simp only [List.getElem?_take_of_lt (Nat.lt_succ_self i)] at hget'
      exact hget'.trans hget
    rw [Program.ofTokens, hread] at h
    rw [Program.ofTokens, program_decided hdepth hread hagree, ← h]
    exact congrArg Except.error (Stop.toError_of_getElem? hget' hget)
  · -- reading fewer tokens would stop at an earlier one, and so would
    -- reading them all
    obtain ⟨obstacle', j, hdepth', hget', -, hread'⟩ := program_of_found hfails hfound
    obtain ⟨hj, -⟩ := List.getElem?_eq_some_iff.1 hget'
    obtain ⟨hi, -⟩ := List.getElem?_eq_some_iff.1 hget
    rw [List.length_take] at hj
    have hagree : tokens.take (j + 1) = (tokens.take k).take (j + 1) := by
      rw [List.take_take, Nat.min_eq_left (by omega)]
    have hearlier := program_decided hdepth' hread' hagree
    rw [hread] at hearlier
    have hlengths := congrArg List.length (congrArg Stop.remaining (Except.error.inj hearlier))
    dsimp only at hlengths
    rw [List.length_drop, List.length_drop] at hlengths
    omega

/-- Tokens that are refused without a token in question are refused, with
more behind them, at one of these if at any. -/
theorem decidedAt_of_append (h : Program.ofTokens limit tokens = .error e)
    (hnone : e.fault.found? = none) {more : List Token} {e' : ParseError}
    (h' : Program.ofTokens limit (tokens ++ more) = .error e')
    (hfound : e'.fault.found? = some t) :
    ∃ j, more[j]? = some t ∧ DecidedAt limit (tokens ++ more) e' (tokens.length + j) t := by
  obtain ⟨i, hdecided⟩ := decidedAt_of_found h' hfound
  by_cases hi : i < tokens.length
  · -- the first tokens alone would decide on the error
    have hagree : tokens.take (i + 1) = (tokens ++ more).take (i + 1) :=
      (List.take_append_of_le_length hi).symm
    have hsame := h.symm.trans (hdecided.settled tokens hagree)
    rw [Except.error.inj hsame, hfound] at hnone
    cases hnone
  · obtain ⟨j, rfl⟩ := Nat.exists_eq_add_of_le (Nat.le_of_not_lt hi)
    refine ⟨j, ?_, hdecided⟩
    have hget := hdecided.found
    rwa [List.getElem?_append_right (Nat.le_add_right ..), Nat.add_sub_cancel_left] at hget

/-- An error for what was expected is a refusal in front of what was found,
and is placed at it or behind the last token. -/
theorem program_of_unexpectedToken {expected : List Expected} {found : Option Token} {span : Span}
    (h : Program.ofTokens limit tokens = .error ⟨.unexpectedToken expected found, span⟩) :
    ∃ rest, program limit tokens = .error ⟨.unexpected expected, rest⟩ ∧ rest.head? = found ∧
      (∀ t ∈ found, span = t.span) ∧ (found = none → span = .point (endOffset tokens)) := by
  rw [Program.ofTokens] at h
  split at h
  · cases h
  · next stop hread =>
    obtain ⟨obstacle, rest⟩ := stop
    cases obstacle with
    | unexpected expected' =>
      cases rest with
      | nil =>
        cases h
        exact ⟨[], hread, rfl, fun t ht => absurd ht (Option.not_mem_none t), fun _ => rfl⟩
      | cons t left =>
        cases h
        refine ⟨t :: left, hread, rfl, fun t' ht => ?_, fun hnone => ?_⟩
        · rw [Option.mem_some_iff.1 ht]
        · exact absurd hnone (Option.some_ne_none t)
    | trailing found' => cases h
    | tooDeep => cases h

/-- A token that is missing is missing behind the last one. -/
theorem span_of_missing {expected : List Expected} {span : Span}
    (h : Program.ofTokens limit tokens = .error ⟨.unexpectedToken expected none, span⟩) :
    span = .point (endOffset tokens) := by
  obtain ⟨-, -, -, -, hspan⟩ := program_of_unexpectedToken h
  exact hspan rfl

end Decided

/-- Tokens are a program, or there is an error. If it has a token in
question, this is the one that decides on it, and where the error is
placed. If it asks for a token and finds none, it is placed just behind
the last one, and more tokens are refused, if a token is in question then,
at one of them. Otherwise there are too many levels. -/
theorem Program.ofTokens_decided (limit : Nat) (tokens : List Token) :
    (∃ p, Program.ofTokens limit tokens = .ok p) ∨
      ∃ e, Program.ofTokens limit tokens = .error e ∧
        match e.fault with
        | .unexpectedToken _ (some t) | .unexpectedTrailingToken t =>
          ∃ i, DecidedAt limit tokens e i t
        | .unexpectedToken _ none => e.span = .point (endOffset tokens) ∧
          ∀ more e' t, more ≠ [] → Program.ofTokens limit (tokens ++ more) = .error e' →
            e'.fault.found? = some t → ∃ j, more[j]? = some t ∧
              DecidedAt limit (tokens ++ more) e' (tokens.length + j) t
        | .maxDepthExceeded m => m = limit := by
  cases h : Program.ofTokens limit tokens with
  | ok p => exact .inl ⟨p, rfl⟩
  | error e =>
    refine .inr ⟨e, rfl, ?_⟩
    obtain ⟨fault, span⟩ := e
    cases fault with
    | unexpectedToken expected found =>
      cases found with
      | some t => exact decidedAt_of_found h rfl
      | none =>
        exact ⟨span_of_missing h, fun more e' t _ h' hfound => decidedAt_of_append h rfl h' hfound⟩
    | unexpectedTrailingToken t => exact decidedAt_of_found h rfl
    | maxDepthExceeded m => exact (ofTokens_maxDepthExceeded_iff.1 ⟨span, h⟩).1

/-- The token of kind number that carries a text. -/
def disguisedNumber : Token := ⟨.number, .text "a", ⟨7, 7⟩⟩

/-- A call that is closed by a token which calls itself a string and spans
bytes backwards. -/
def disguisedCall : List Token :=
  [⟨.identifier, .text "f", ⟨5, 6⟩⟩, ⟨.parenthesis, .symbol '(', ⟨0, 1⟩⟩,
    ⟨.string, .symbol ')', ⟨9, 3⟩⟩]

def disguisedSummand : List Token := [⟨.operator, .symbol '+', ⟨1, 2⟩⟩, disguisedNumber]

/-- The call is closed by the sign, and a token is missing behind it. With
a sum begun behind it, the number that is none decides. -/
theorem Program.ofTokens_decided_disguised :
    (∃ expected, Program.ofTokens 500 disguisedCall
      = .error ⟨.unexpectedToken expected none, .point 3⟩) ∧
      disguisedSummand ≠ [] ∧ ∃ e j,
        Program.ofTokens 500 (disguisedCall ++ disguisedSummand) = .error e ∧
        e.fault.found? = some disguisedNumber ∧ disguisedSummand[j]? = some disguisedNumber ∧
        DecidedAt 500 (disguisedCall ++ disguisedSummand) e (3 + j) disguisedNumber := by
  have hcall : Program.ofTokens 500 disguisedCall
      = .error ⟨.unexpectedToken afterFactor none, .point 3⟩ := by decide +kernel
  have hsum : Program.ofTokens 500 (disguisedCall ++ disguisedSummand)
      = .error ⟨.unexpectedToken expressionStarts (some disguisedNumber), ⟨7, 7⟩⟩ := by
    decide +kernel
  rcases Program.ofTokens_decided 500 disguisedCall with ⟨p, hok⟩ | ⟨e, herror, hdecided⟩
  · cases hcall.symm.trans hok
  · obtain rfl := Except.error.inj (hcall.symm.trans herror)
    obtain ⟨j, hj, hdecided⟩ := hdecided.2 disguisedSummand _ _ (by decide) hsum rfl
    exact ⟨⟨_, hcall⟩, by decide, _, j, hsum, rfl, hj, hdecided⟩

end Reckoner
