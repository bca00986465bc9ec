/-
Programs without their last token. It is a semicolon, and it is missed by
the rule that read the last operand, far below the statement that lacks
it: the rule for products looks behind every operand, and where there is
nothing it refuses, with all that could have come and the semicolon among
it. So nothing else is refused first, and the limit on nesting plays no
part, since all levels were there with the semicolon.

Reading tokens and reading them with a semicolon behind them make one more
course. As long as a reader does not come to the end, both take the same.
At the end the first one runs out of tokens where a semicolon could stand,
or the second one does not get beyond the semicolon.
-/
import Reckoner.Diagnostic
import Reckoner.Proofs.Grammar.Limits

namespace Reckoner

open Reckoner.Derivation

namespace Parser

variable {α β : Type} {tokens rest : List Token} {last : Token}

-- ==================================================== without the last token

/-- What runs out in its first step runs out. -/
theorem RunsOut.bind {step : Except Stop α} (h : RunsOut step) (next : α → Except Stop β) :
    RunsOut (step >>= next) := by
  obtain ⟨expected, rfl, hmem⟩ := h
  exact ⟨expected, rfl, hmem⟩

/-- What a reader comes to without the last token, and what comes to the
same with it: an answer that leaves the token with the rest, or tokens that
run out, or else the reading that has the token fails. -/
inductive Unended (last : Token) (run run' : Reader α) (ts : List Token)
    (post : α → List Token → Prop) : Prop where
  | answered {a : α} {rest : List Token} (hrun : run ts = .ok (a, rest))
      (hrun' : run' (ts ++ [last]) = .ok (a, rest ++ [last])) (hpost : post a rest)
  | runsOut (hrun : RunsOut (run ts))
  | failed {stop : Stop} (hrun' : run' (ts ++ [last]) = .error stop)

/-- The course of tokens without a semicolon behind them. -/
def Course.unended (limit : Nat) (tokens : List Token) {last : Token}
    (hlast : last.carries ';' = true) : Course limit tokens .own 0 where
  Holds run run' ts post := Unended last run run' ts post
  ok h := .answered rfl rfl h
  refuse _ := .failed rfl
  mismatch _ _ _ := .failed rfl
  deep _ hrun' := .failed (congrFun (hrun' rfl) _)
  bind {_ _ run run' next next' ts _ _} h hnext := by
    cases h with
    | @answered a rest hrun hrun' hmid =>
      have hboth : (run ts >>= next) = next (a, rest) := by rw [hrun]; rfl
      have hboth' : (run' (ts ++ [last]) >>= next') = next' (a, rest ++ [last]) := by
        rw [hrun']
        rfl
      cases hnext a rest hrun hmid with
      | answered hbehind hbehind' hpost =>
        exact .answered (hboth.trans hbehind) (hboth'.trans hbehind') hpost
      | runsOut hbehind => exact .runsOut (hboth ▸ hbehind)
      | failed hbehind' => exact .failed (hboth'.trans hbehind')
    | runsOut hrun => exact .runsOut (hrun.bind next)
    | @failed stop hrun' =>
      have hboth' : (run' (ts ++ [last]) >>= next') = .error stop := by rw [hrun']; rfl
      exact .failed hboth'
  look {_ _ look next next' ts _} hglance hend h := by
    -- with tokens left the next one is the same, and at the end it is the last one
    have hlooked : look (ts ++ [last]) = look ts ∨ RunsOut (next (look ts) ts) ∨
        ∃ stop, next' (look (ts ++ [last])) (ts ++ [last]) = .error stop := by
      cases ts with
      | nil => exact hend last hlast
      | cons t others => exact .inl (hglance rfl)
    rcases hlooked with hsame | hout | ⟨stop, hstop⟩
    · cases h with
      | answered hrun hrun' hpost => exact .answered hrun (hsame ▸ hrun') hpost
      | runsOut hrun => exact .runsOut hrun
      | failed hrun' => exact .failed (hsame ▸ hrun')
    · exact .runsOut hout
    · exact .failed hstop
  take h := by
    cases h with
    | answered hrun hrun' hpost => exact .answered hrun hrun' hpost
    | runsOut hrun => exact .runsOut hrun
    | failed hrun' => exact .failed hrun'

-- ============================================================ whole programs

theorem expect_eq_ok {sign : Char} (h : expect sign tokens = .ok rest) :
    ∃ t, tokens = t :: rest ∧ t.carries sign = true := by
  unfold expect at h
  split at h
  · next hnext =>
    cases tokens with
    | nil => cases hnext
    | cons t others =>
      cases h
      exact ⟨t, rfl, hnext⟩
  · cases h

/-- Statements that take every token end with a semicolon, which is not
their first token. -/
theorem statements_end {limit : Nat} {tokens : List Token} {ss : List Statement}
    (h : statements (statement (Grammar.ofDepth limit).expression) tokens = .ok (ss, [])) :
    ∃ front last, tokens = front ++ [last] ∧ front ≠ [] ∧ last.carries ';' = true := by
  rw [statements_eq] at h
  obtain ⟨⟨s, mid⟩, hstatement, hbehind⟩ := bind_eq_ok h
  obtain ⟨rest, hsemicolon, hmore⟩ := bind_eq_ok hbehind
  obtain ⟨front, rfl, -⟩ := statement_takes hstatement
  have hfewer := (statement (Grammar.ofDepth limit).expression).consumes hstatement
  have hfront : front ≠ [] := by
    rintro rfl
    exact absurd hfewer (Nat.lt_irrefl _)
  obtain ⟨t, rfl, ht⟩ := expect_eq_ok hsemicolon
  split at hmore
  · obtain ⟨⟨others, left⟩, hothers, hpure⟩ := bind_eq_ok hmore
    cases hpure
    obtain ⟨front', last, rfl, -, hlast⟩ := statements_end hothers
    exact ⟨front ++ t :: front', last, by simp, by simp, hlast⟩
  · cases hmore
    exact ⟨front, t, rfl, hfront, ht⟩
termination_by tokens.length
decreasing_by
  subst_vars
  simp only [List.length_append, List.length_cons]
  omega

/-- Without its last token a program runs out where that token stood. -/
theorem program_unended {limit : Nat} {p : Program}
    (h : program limit (tokens ++ [last]) = .ok p) :
    tokens ≠ [] ∧ last.carries ';' = true ∧ RunsOut (program limit tokens) := by
  obtain ⟨⟨ss, rest⟩, hstatements, hend⟩ := bind_eq_ok h
  cases rest with
  | cons t rest => cases hend
  | nil =>
    obtain ⟨front, last', htokens, hfront, hlast⟩ := statements_end hstatements
    obtain ⟨rfl, hsame⟩ := List.append_inj' htokens rfl
    obtain rfl := List.singleton_inj.1 hsame
    refine ⟨hfront, hlast, ?_⟩
    have hunended : Unended last _ _ tokens _ :=
      (Course.unended limit tokens hlast).statements (awaits_program tokens) (Nat.le_refl _)
    rw [Arms.own_grammar, Nat.zero_add] at hunended
    cases hunended with
    | answered _ hrun' =>
      -- the last token would be left over
      have hrest := congrArg Prod.snd (Except.ok.inj (hstatements.symm.trans hrun'))
      exact absurd hrest (by simp)
    | runsOut hrun => exact hrun.bind _
    | failed hrun' => cases hstatements.symm.trans hrun'

end Parser

open Reckoner.Parser

theorem Program.ofTokens_eq_ok_iff {limit : Nat} {tokens : List Token} {p : Program} :
    Program.ofTokens limit tokens = .ok p ↔ program limit tokens = .ok p := by
  unfold Program.ofTokens
  cases program limit tokens with
  | ok q => exact ⟨fun h => congrArg _ (Except.ok.inj h), fun h => congrArg _ (Except.ok.inj h)⟩
  | error stop => exact ⟨nofun, nofun⟩

/-- Every program ends with a semicolon. Without it, it is no program, under
no limit; and under the limit under which it is one, it is refused for
nothing else: the tokens end where a semicolon could come, the error is
placed just behind the last one, and its report says that the semicolon is
missing and nothing more. -/
theorem Program.ofTokens_unended {limit : Nat} {tokens : List Token} {last : Token} {p : Program}
    (h : Program.ofTokens limit (tokens ++ [last]) = .ok p) :
    last.carries ';' = true ∧ (∀ limit' q, Program.ofTokens limit' tokens ≠ .ok q) ∧
      ∃ e expected final, Program.ofTokens limit tokens = .error e ∧
        e.fault = .unexpectedToken expected none ∧ .symbol ';' ∈ expected ∧
        tokens.getLast? = some final ∧ e.span = ⟨final.span.stop, final.span.stop⟩ ∧
        e.diagnostic.code = "P001" ∧
        e.diagnostic.help = ["every statement must end with `;`"] := by
  obtain ⟨hne, hlast, expected, hout, hmem⟩ := program_unended (ofTokens_eq_ok_iff.1 h)
  have hrefused : Program.ofTokens limit tokens
      = .error ⟨.unexpectedToken expected none, .point (endOffset tokens)⟩ := by
    unfold Program.ofTokens
    rw [hout]
    rfl
  refine ⟨hlast, fun limit' q haccepted => ?_, _, expected, tokens.getLast hne, hrefused, rfl, hmem,
    List.getLast?_eq_some_getLast hne, ?_, rfl, if_pos hmem⟩
  · -- under the higher one of the two limits there would be both
    have hout' : program (max limit limit') tokens = program limit tokens :=
      program_eq_of_le (Nat.le_max_left ..) (by rw [hout]; exact nofun)
    have haccepted' : program (max limit limit') tokens = program limit' tokens :=
      program_eq_of_le (Nat.le_max_right ..) (by rw [ofTokens_eq_ok_iff.1 haccepted]; exact nofun)
    rw [hout', hout, ofTokens_eq_ok_iff.1 haccepted] at haccepted'
    cases haccepted'
  · rw [endOffset, List.getLast?_eq_some_getLast hne]
    rfl

/-- The tokens of `1;a?(b):f()*'ü'`. -/
def unendedTokens : List Token :=
  [⟨.number, .number .one, ⟨0, 1⟩⟩, semicolon ⟨1, 2⟩, ⟨.identifier, .text "a", ⟨2, 3⟩⟩,
    ⟨.questionMark, .symbol '?', ⟨3, 4⟩⟩, ⟨.parenthesis, .symbol '(', ⟨4, 5⟩⟩,
    ⟨.identifier, .text "b", ⟨5, 6⟩⟩, closing ⟨6, 7⟩, ⟨.colon, .symbol ':', ⟨7, 8⟩⟩,
    ⟨.identifier, .text "f", ⟨8, 9⟩⟩, ⟨.parenthesis, .symbol '(', ⟨9, 10⟩⟩, closing ⟨10, 11⟩,
    ⟨.operator, .symbol '*', ⟨11, 12⟩⟩, ⟨.string, .text "ü", ⟨12, 16⟩⟩]

/-- Two statements, the second of which ends with a product in the arm of a
choice. Six levels are enough for both, with the last semicolon. -/
theorem Program.ofTokens_unended_arm :
    tokenize "1;a?(b):f()*'ü'" = .ok unendedTokens ∧
      (∃ p, Program.ofTokens 6 (unendedTokens ++ [semicolon ⟨16, 17⟩]) = .ok p) ∧
      ∃ e expected, Program.ofTokens 6 unendedTokens = .error e ∧
        e.fault = .unexpectedToken expected none ∧ .symbol ';' ∈ expected ∧ e.span = ⟨16, 16⟩ ∧
        e.diagnostic.help = ["every statement must end with `;`"] := by
  have htokens : tokenize "1;a?(b):f()*'ü'" = .ok unendedTokens := by decide +kernel
  have hread : (Program.ofTokens 6 (unendedTokens ++ [semicolon ⟨16, 17⟩])).isOk = true := by
    decide +kernel
  cases h : Program.ofTokens 6 (unendedTokens ++ [semicolon ⟨16, 17⟩]) with
  | error e =>
    rw [h] at hread
    cases hread
  | ok p =>
    obtain ⟨-, -, e, expected, final, herror, hfault, hmem, hfinal, hspan, -, hhelp⟩ :=
      Program.ofTokens_unended h
    cases hfinal
    exact ⟨htokens, ⟨p, rfl⟩, e, expected, herror, hfault, hmem, hspan, hhelp⟩

end Reckoner
