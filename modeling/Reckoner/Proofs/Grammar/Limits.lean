/-
Limits on nesting. A limit decides one thing only, whether reading is
given up for want of depth. Whatever else comes of a list of tokens comes
of it under every higher limit too, since there the rules read in step.

And there is a limit that is high enough for tokens of whatever kind: three
levels for each token, and three more for the rules that meet the end of
the tokens. It is the room that the rules leave for the tokens on their
way.
-/
import Reckoner.Proofs.Grammar.FirstFault

namespace Reckoner

namespace Parser

-- ======================================================= whole programs

/-- What does not fail for want of depth is the same under every higher
limit. -/
theorem program_eq_of_le {limit limit' : Nat} (h : limit ≤ limit') {tokens : List Token}
    (hdepth : ∀ rest, program limit tokens ≠ .error ⟨.tooDeep, rest⟩) :
    program limit' tokens = program limit tokens := by
  obtain ⟨outcome, left, hread⟩ :=
    exists_leave (statements (statement (Grammar.ofDepth limit).expression) tokens)
  have hshallow : outcome ≠ .error .tooDeep := by
    rintro rfl
    refine hdepth left ?_
    rw [program, hread]
    rfl
  obtain ⟨front, htokens, hsame⟩ := statements_settled h (.inl hshallow) hread
  have hread' := hsame rfl rfl
  rw [← htokens] at hread'
  rw [program, program, hread, hread']

/-- Three levels for each token, and three more, are enough. -/
theorem program_roomy {limit : Nat} {tokens : List Token} (h : 3 * tokens.length + 3 ≤ limit)
    (rest : List Token) : program limit tokens ≠ .error ⟨.tooDeep, rest⟩ := by
  intro hread
  rcases bind_eq_error hread with hstatements | ⟨⟨ss, left⟩, -, hbehind⟩
  · have hless := ((statements_comesTo limit tokens).refuses hstatements).deep rfl
    omega
  · cases left <;> cases hbehind

end Parser

open Reckoner.Parser

-- ======================================================= errors of depth

/-- The error that reports want of depth holds the limit that was given,
and nothing else is reported so. -/
theorem Program.ofTokens_maxDepthExceeded_iff {limit m : Nat} {tokens : List Token} :
    (∃ span, Program.ofTokens limit tokens = .error ⟨.maxDepthExceeded m, span⟩) ↔
      m = limit ∧ ∃ rest, program limit tokens = .error ⟨.tooDeep, rest⟩ := by
  unfold Program.ofTokens
  cases program limit tokens with
  | ok p => simp
  | error stop =>
    obtain ⟨obstacle, rest⟩ := stop
    cases obstacle <;> simp [Stop.toError, eq_comm]

/-- Limits on nesting decide whether tokens are refused for their depth,
and nothing else: what is not refused so is the same program, or the same
error at the same place, under every higher limit. Such an error holds the
limit, and a limit of three levels for each token and three more never
leads to one. This holds of any tokens, put together in whatever way. -/
theorem Program.ofTokens_under_limits (tokens : List Token) :
    (∀ limit limit', limit ≤ limit' →
      (∀ m span, Program.ofTokens limit tokens ≠ .error ⟨.maxDepthExceeded m, span⟩) →
        Program.ofTokens limit' tokens = Program.ofTokens limit tokens) ∧
      (∀ limit m span, Program.ofTokens limit tokens = .error ⟨.maxDepthExceeded m, span⟩ →
        m = limit) ∧
      ∀ limit, 3 * tokens.length + 3 ≤ limit → ∀ m span,
        Program.ofTokens limit tokens ≠ .error ⟨.maxDepthExceeded m, span⟩ := by
  refine ⟨fun limit limit' hle hshallow => ?_, fun limit m span hdeep => ?_,
    fun limit hroom m span hdeep => ?_⟩
  · have hroomy (rest : List Token) : program limit tokens ≠ .error ⟨.tooDeep, rest⟩ := by
      intro hread
      obtain ⟨span, hdeep⟩ := ofTokens_maxDepthExceeded_iff.2 ⟨rfl, rest, hread⟩
      exact hshallow limit span hdeep
    have hsame := program_eq_of_le hle hroomy
    unfold Program.ofTokens
    rw [hsame]
    cases hread : program limit tokens with
    | ok p => rfl
    | error stop =>
      obtain ⟨obstacle, rest⟩ := stop
      cases obstacle with
      | unexpected expected => rfl
      | trailing found => rfl
      | tooDeep => exact absurd hread (hroomy rest)
  · exact (ofTokens_maxDepthExceeded_iff.1 ⟨span, hdeep⟩).1
  · obtain ⟨-, rest, hread⟩ := ofTokens_maxDepthExceeded_iff.1 ⟨span, hdeep⟩
    exact program_roomy hroom rest hread

/-- Two parentheses that are open, and a token that calls itself a number
and carries a text. -/
def oddTokens : List Token :=
  [⟨.parenthesis, .symbol '(', ⟨0, 1⟩⟩, ⟨.parenthesis, .symbol '(', ⟨1, 2⟩⟩,
    ⟨.number, .text "a", ⟨2, 3⟩⟩]

/-- Nine levels get to the odd token, eight do not. -/
theorem Program.ofTokens_under_limits_odd :
    Program.ofTokens 9 oddTokens
        = .error ⟨.unexpectedToken expressionStarts oddTokens[2]?, ⟨2, 3⟩⟩ ∧
      Program.ofTokens 500 oddTokens = Program.ofTokens 9 oddTokens ∧
      (∃ m, Program.ofTokens 8 oddTokens = .error ⟨.maxDepthExceeded m, ⟨2, 3⟩⟩ ∧ m = 8) ∧
      ∀ m span, Program.ofTokens 12 oddTokens ≠ .error ⟨.maxDepthExceeded m, span⟩ := by
  have hnine : Program.ofTokens 9 oddTokens
      = .error ⟨.unexpectedToken expressionStarts oddTokens[2]?, ⟨2, 3⟩⟩ := by
    decide +kernel
  have height : Program.ofTokens 8 oddTokens = .error ⟨.maxDepthExceeded 8, ⟨2, 3⟩⟩ := by
    decide +kernel
  obtain ⟨hhigher, hlimit, hroom⟩ := Program.ofTokens_under_limits oddTokens
  refine ⟨hnine, hhigher 9 500 (by decide) ?_, ⟨8, height, hlimit 8 8 _ height⟩,
    hroom 12 (by decide)⟩
  rw [hnine]
  exact nofun

end Reckoner
