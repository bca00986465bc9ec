/-
What the parser refuses, and where it never comes to refuse. Three of the
answers that the rules have are not called for, those of the arms that are
left open: a primary without a token, a primary that begins with none of
the tokens that there are for it, and an operand of a sum with neither an
operator nor an end behind it. The first and the last are ruled out for
any tokens. The second is possible where a token says of itself that it
is a number and carries none, so it is ruled out for the tokens of a
source.

An arm of a rule that is never taken can be any arm. So the reading is the
same whatever the three answers are. A refusal is passed on by every rule
up to the whole program; were such an arm taken, its answer would be the
result. The reason is found where the rules are followed: products and
sums look at the token in front of an operand before they read it, and
behind an operand of a sum is what can follow a product.
-/
import Reckoner.Proofs.Grammar.Decisive

namespace Reckoner

namespace Parser

-- ============================================== the refusals that there are

/-- No rule refuses for what is behind an operand of a sum. -/
theorem RefusedAt.ne_afterSummand {obstacle : Obstacle} {tokens : List Token}
    (h : RefusedAt obstacle tokens) : obstacle ≠ .unexpected afterSummand := by
  intro hobstacle
  cases h with
  | start | mismatched | arguments | factor =>
    exact absurd (Obstacle.unexpected.inj hobstacle) (by decide)
  | item closers =>
    have hfirst := (List.cons.inj (Obstacle.unexpected.inj hobstacle)).1
    exact absurd hfirst (by decide)
  | sign c =>
    have hrest := (List.cons.inj (Obstacle.unexpected.inj hobstacle)).2
    exact absurd hrest (by decide)
  | tooDeep => cases hobstacle

/-- What is asked for behind an expression of a statement. -/
def afterExpression : List Expected := [.symbol ',', .symbol ';', .symbol ')']

/-- Where a statement asks for one of these, a sign of a choice is
next. -/
theorem RefusedAt.afterExpression {obstacle : Obstacle} {tokens : List Token}
    (h : RefusedAt obstacle tokens) (hobstacle : obstacle = .unexpected afterExpression) :
    nextIs '?' tokens = true ∨ nextIs ':' tokens = true := by
  cases h with
  | start | mismatched | arguments | factor =>
    exact absurd (Obstacle.unexpected.inj hobstacle) (by decide)
  | item closers hends hnone =>
    have hclosers : closers.map Expected.symbol = [';', ')'].map .symbol :=
      (List.cons.inj (Obstacle.unexpected.inj hobstacle)).2
    obtain rfl : closers = [';', ')'] :=
      (List.map_inj_right fun _ _ => Expected.symbol.inj).1 hclosers
    obtain ⟨sign, hmem, hnext⟩ := hends
    simp only [operandEnds, List.mem_cons, List.not_mem_nil, or_false] at hmem
    rcases hmem with rfl | rfl | rfl | rfl | rfl
    · simp [hnone] at hnext
    · exact .inl hnext
    · exact .inr hnext
    · simp [hnone] at hnext
    · simp [hnone] at hnext
  | sign c =>
    have hrest := (List.cons.inj (Obstacle.unexpected.inj hobstacle)).2
    exact absurd hrest (by decide)
  | tooDeep => cases hobstacle

/-- What a program asks for is asked for by one of its rules. -/
theorem program_refusedAt {limit : Nat} {tokens rest : List Token} {expected : List Expected}
    (h : program limit tokens = .error ⟨.unexpected expected, rest⟩) :
    RefusedAt (.unexpected expected) rest := by
  rcases bind_eq_error h with hstatements | ⟨⟨ss, left⟩, -, hbehind⟩
  · exact ((statements_comesTo limit tokens).refuses hstatements).refused
  · cases left <;> cases hbehind

/-- Whatever the answers are, the reading is the same. -/
theorem Arms.program_eq {arms : Arms} {limit : Nat} {tokens : List Token}
    (hspares : arms.Spares tokens) : arms.program limit tokens = Parser.program limit tokens := by
  obtain ⟨outcome, rest, hread⟩ :=
    exists_leave (statements (statement (Grammar.ofDepth limit).expression) tokens)
  obtain ⟨front, rfl, -, hfollows⟩ := statements_inStep limit tokens arms 0 hread
  have hread' := hfollows (fun _ => rfl) rfl rfl hspares
  rw [Nat.zero_add, ← hread] at hread'
  exact congrArg (fun result => result >>= _) hread'

end Parser

open Reckoner.Parser

/-- Three arms of the rules are never taken. No tokens, whatever they are
made of, are refused for what is behind an operand of a sum, since behind
a product there is always an operator of a sum or one of the five signs,
and no primary is asked for without a token: the reading does not depend
on what is answered there. For the tokens of a source it does not depend
on the answer to a mismatch either; and what a statement refuses behind an
expression, instead of a comma or the end of the statement, is the sign of
a choice. -/
theorem Program.ofTokens_idle_arms (limit : Nat) (tokens : List Token) :
    (∀ found span,
      Program.ofTokens limit tokens ≠ .error ⟨.unexpectedToken afterSummand found, span⟩) ∧
    (∀ depth before e rest, (Grammar.ofDepth depth).product.run before = .ok (e, rest) →
      BehindProduct rest) ∧
    (∀ arms : Arms, arms.mismatched = Arms.own.mismatched →
      arms.program limit tokens = program limit tokens) ∧
    ∀ source, tokenize source = .ok tokens →
      (∀ arms : Arms, arms.program limit tokens = program limit tokens) ∧
      ∀ found span,
        Program.ofTokens limit tokens = .error ⟨.unexpectedToken afterExpression found, span⟩ →
          found = some ⟨.questionMark, .symbol '?', span⟩ ∨
          found = some ⟨.colon, .symbol ':', span⟩ := by
  refine ⟨fun found span h => ?_, fun depth before e rest h => product_next h,
    fun arms hown => Arms.program_eq fun t _ => .inr fun rest => by rw [hown],
    fun source htokens => ?_⟩
  · obtain ⟨rest, hread, -⟩ := program_of_unexpectedToken h
    exact (program_refusedAt hread).ne_afterSummand rfl
  have hagree : Agreeing tokens := fun t ht => (Lexer.tokensFrom_lexical htokens t ht).agrees
  refine ⟨fun arms => Arms.program_eq fun t ht => .inl (hagree t ht), fun found span h => ?_⟩
  obtain ⟨rest, hread, rfl, hspan, -⟩ := program_of_unexpectedToken h
  obtain ⟨front, rfl, -⟩ := program_halts hagree hread nofun
  rcases (program_refusedAt hread).afterExpression rfl with hquestion | hcolon
  · obtain ⟨place, hrest⟩ := nextIs_sound hagree.right hquestion rfl
    rw [hrest] at hspan ⊢
    rw [hspan _ rfl]
    exact .inl rfl
  · obtain ⟨place, hrest⟩ := nextIs_sound hagree.right hcolon rfl
    rw [hrest] at hspan ⊢
    rw [hspan _ rfl]
    exact .inr rfl

/-- The tokens of `1:1;`. -/
def strayColonTokens : List Token :=
  [⟨.number, .number .one, ⟨0, 1⟩⟩, ⟨.colon, .symbol ':', ⟨1, 2⟩⟩,
    ⟨.number, .number .one, ⟨2, 3⟩⟩, semicolon ⟨3, 4⟩]

/-- The tokens of `a?b:c?d:e;`. -/
def secondChoiceTokens : List Token :=
  [⟨.identifier, .text "a", ⟨0, 1⟩⟩, ⟨.questionMark, .symbol '?', ⟨1, 2⟩⟩,
    ⟨.identifier, .text "b", ⟨2, 3⟩⟩, ⟨.colon, .symbol ':', ⟨3, 4⟩⟩,
    ⟨.identifier, .text "c", ⟨4, 5⟩⟩, ⟨.questionMark, .symbol '?', ⟨5, 6⟩⟩,
    ⟨.identifier, .text "d", ⟨6, 7⟩⟩, ⟨.colon, .symbol ':', ⟨7, 8⟩⟩,
    ⟨.identifier, .text "e", ⟨8, 9⟩⟩, semicolon ⟨9, 10⟩]

/-- Both signs of a choice are refused by a statement. The answer to a
mismatch is the result where a token calls itself a number and is none,
and the other two are not even there. -/
theorem Program.ofTokens_idle_arms_signs :
    tokenize "1:1;" = .ok strayColonTokens ∧ tokenize "a?b:c?d:e;" = .ok secondChoiceTokens ∧
    (∃ found, Program.ofTokens 500 strayColonTokens
        = .error ⟨.unexpectedToken afterExpression found, ⟨1, 2⟩⟩ ∧
      (found = some ⟨.questionMark, .symbol '?', ⟨1, 2⟩⟩ ∨
        found = some ⟨.colon, .symbol ':', ⟨1, 2⟩⟩)) ∧
    (∃ found, Program.ofTokens 500 secondChoiceTokens
        = .error ⟨.unexpectedToken afterExpression found, ⟨5, 6⟩⟩ ∧
      (found = some ⟨.questionMark, .symbol '?', ⟨5, 6⟩⟩ ∨
        found = some ⟨.colon, .symbol ':', ⟨5, 6⟩⟩)) ∧
    (∃ e rest, (Grammar.ofDepth 1).product.run strayColonTokens = .ok (e, rest) ∧
      BehindProduct rest) ∧
    (∀ arms : Arms, arms.program 9 oddTokens = .error (arms.mismatched (oddTokens.drop 2))) ∧
    ∀ answer, Arms.program { Arms.own with noToken := answer, behindOperand := fun _ => answer } 9
      oddTokens = program 9 oddTokens := by
  have hcolon : tokenize "1:1;" = .ok strayColonTokens := by decide +kernel
  have hchoice : tokenize "a?b:c?d:e;" = .ok secondChoiceTokens := by decide +kernel
  have hstray : Program.ofTokens 500 strayColonTokens = .error ⟨.unexpectedToken afterExpression
      (some ⟨.colon, .symbol ':', ⟨1, 2⟩⟩), ⟨1, 2⟩⟩ := by decide +kernel
  have hsecond : Program.ofTokens 500 secondChoiceTokens = .error ⟨.unexpectedToken afterExpression
      (some ⟨.questionMark, .symbol '?', ⟨5, 6⟩⟩), ⟨5, 6⟩⟩ := by decide +kernel
  have hproduct : (Grammar.ofDepth 1).product.run strayColonTokens
      = .ok (.number .one, strayColonTokens.tail) := rfl
  have hodd (arms : Arms) :
      arms.program 9 oddTokens = .error (arms.mismatched (oddTokens.drop 2)) := by cbv
  obtain ⟨-, hbehind, -, hsource⟩ := Program.ofTokens_idle_arms 500 strayColonTokens
  obtain ⟨-, -, -, hsource'⟩ := Program.ofTokens_idle_arms 500 secondChoiceTokens
  obtain ⟨-, -, hown, -⟩ := Program.ofTokens_idle_arms 9 oddTokens
  exact ⟨hcolon, hchoice, ⟨_, hstray, (hsource _ hcolon).2 _ _ hstray⟩,
    ⟨_, hsecond, (hsource' _ hchoice).2 _ _ hsecond⟩, ⟨_, _, hproduct, hbehind _ _ _ _ hproduct⟩,
    hodd, fun _ => hown _ rfl⟩

end Reckoner
