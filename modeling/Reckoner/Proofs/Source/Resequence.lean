/-
Commas and semicolons in a row. Outside parentheses they do the same: a
source with semicolons for some of its commas is read as the same
expressions in the same order, in more statements, and has the same value,
the same failure and the same calls.

What a statement is worth is taken from its last expression, and what a
program is worth from its last statement, so both are the value of the
last expression of all. The two ways to go through them, one within a
statement and one from statement to statement, come to one way through
the expressions. That needs statements that are not empty, since an empty
one would be worth nothing; those of a source never are.
-/
import Reckoner.Proofs.Source.Regrouping

namespace Reckoner

open Reckoner.Derivation Evaluator

-- ========================================================== evaluation

section Rows

variable {φ σ : Type} [HostFunction φ]

namespace Evaluator

/-- A row behind another one goes on from its value. -/
theorem evalLast_append (ev : Evaluator φ σ) (last : Value φ) (row others : List Expr) :
    ev.evalLast last (row ++ others)
      = (ev.evalLast last row >>= fun value => ev.evalLast value others) := by
  induction row generalizing last with
  | nil =>
    rw [evalLast, pure_bind]
    rfl
  | cons e row ih =>
    rw [List.cons_append, evalLast, evalLast, bind_assoc]
    exact bind_congr fun value => ih value

/-- The value before a row that is not empty does not matter. -/
theorem evalLast_of_ne_nil (ev : Evaluator φ σ) {row : List Expr} (h : row ≠ [])
    (last last' : Value φ) : ev.evalLast last row = ev.evalLast last' row := by
  obtain ⟨e, others, rfl⟩ := List.exists_cons_of_ne_nil h
  rw [evalLast, evalLast]

/-- Statement by statement is expression by expression. -/
theorem foldlM_evalStatement (ev : Evaluator φ σ) {statements : List Statement}
    (h : ∀ s ∈ statements, s ≠ []) (last : Value φ) :
    statements.foldlM (fun _ s => ev.evalStatement s) last
      = ev.evalLast last statements.flatten := by
  induction statements generalizing last with
  | nil => rw [List.foldlM_nil, List.flatten_nil, evalLast]
  | cons s statements ih =>
    obtain ⟨hs, hothers⟩ := List.forall_mem_cons.1 h
    rw [List.foldlM_cons, List.flatten_cons, evalLast_append, evalStatement,
      ev.evalLast_of_ne_nil hs .undefined last]
    exact bind_congr fun value => ih hothers value

end Evaluator

theorem Engine.run_congr {p q : Program} (hp : ∀ s ∈ p.statements, s ≠ [])
    (hq : ∀ s ∈ q.statements, s ≠ []) (h : p.statements.flatten = q.statements.flatten)
    (engine : Engine) (host : Host φ σ) (env : Environment φ) :
    engine.run host env p = engine.run host env q := by
  funext state
  rw [run, run, evalProgram, evalProgram, foldlM_evalStatement _ hp, foldlM_evalStatement _ hq, h]

end Rows

-- ============================================================= sources

namespace Derivation

theorem OfStatement.trees_ne_nil (s : OfStatement) : s.trees ≠ [] := by
  cases s <;> exact nofun

/-- No statement of a source is empty. -/
theorem OfProgram.ne_nil_of_mem (d : OfProgram) : ∀ s ∈ d.statements, s ≠ [] := by
  induction d with
  | last s semicolon =>
    exact fun trees h => List.mem_singleton.1 h ▸ s.trees_ne_nil
  | more s semicolon rest ih => exact List.forall_mem_cons.2 ⟨s.trees_ne_nil, ih⟩

end Derivation

/-- A source with semicolons for commas outside parentheses has the tokens
of the program that is cut there. -/
theorem tokenize_regrouped {source source' : String} {d : OfProgram} {chosen : List Token}
    (htokens : tokenize source = .ok d.yield) (hchosen : ∀ t ∈ chosen, t.OuterComma d.yield)
    (hsource : source'.toList
      = Text.semicolonsAt (chosen.map fun t => t.span.start) 0 source.toList) :
    tokenize source' = .ok (d.regrouped (chosen.map fun t => t.span.start)).yield := by
  have hplaces : ∀ place ∈ chosen.map fun t => t.span.start, 0 ≤ place →
      ∃ t ∈ d.yield, t.kind = .comma ∧ t.span.start = place := by
    intro place hplace _
    obtain ⟨t, ht, rfl⟩ := List.mem_map.1 hplace
    obtain ⟨front, back, hsplit, hcomma, -⟩ := hchosen t ht
    exact ⟨t, hsplit ▸ List.mem_append_right _ List.mem_cons_self, hcomma, rfl⟩
  have houter : ∀ front t back, d.yield = front ++ t :: back →
      (t.span.start ∈ chosen.map fun t => t.span.start) →
      t.kind = .comma ∧ openParentheses front = 0 := by
    intro front t back hsplit hplace
    obtain ⟨u, hu, hstart⟩ := List.mem_map.1 hplace
    obtain ⟨front', back', hsplit', hcomma, hopen⟩ := hchosen u hu
    -- the token that begins at the place is the comma that was chosen
    obtain rfl := (Lexer.tiles_of_tokensFrom htokens).front_unique hsplit hsplit' hstart.symm
    obtain ⟨rfl, -⟩ := List.cons.inj (List.append_cancel_left (hsplit.symm.trans hsplit'))
    exact ⟨hcomma, hopen⟩
  rw [tokenize, hsource, Lexer.tokensFrom_semicolonsAt htokens hplaces, ← d.yield_regrouped]
  exact congrArg Except.ok (map_semicolonAt_eq houter (List.nil_append d.yield).symm)

/-- A source with semicolons for some of its commas outside parentheses is
read, under the same limit. Its statements fall into groups, and each group
has the expressions of one statement of the other source; so the expressions
are the same and in the same order. What it is evaluated to, and with what
calls, is the same everywhere. -/
theorem Engine.evaluate_resequenced {engine : Engine} {source source' : String} {p : Program}
    {tokens chosen : List Token} (hparse : engine.parse source = .ok p)
    (htokens : tokenize source = .ok tokens) (hchosen : ∀ t ∈ chosen, t.OuterComma tokens)
    (hsource : source'.toList
      = Text.semicolonsAt (chosen.map fun t => t.span.start) 0 source.toList) :
    ∃ q, engine.parse source' = .ok q ∧ q.statements.flatten = p.statements.flatten ∧
      (∃ groups : List (List Statement), groups.map List.flatten = p.statements ∧
        groups.flatten = q.statements) ∧
      ∀ {φ σ : Type} [HostFunction φ] (host : Host φ σ) (env : Environment φ) (state : σ),
        engine.evaluate host env source' state = engine.evaluate host env source state ∧
          engine.sourceCalls host env source' state
            = engine.sourceCalls host env source state := by
  obtain ⟨d, hd, rfl, hdepth⟩ := Engine.exists_yield hparse
  obtain rfl : d.yield = tokens := Except.ok.inj (hd.symm.trans htokens)
  have htokens' := tokenize_regrouped htokens hchosen hsource
  generalize (chosen.map fun t => t.span.start) = places at htokens'
  have hparse' : engine.parse source' = .ok (d.regrouped places).tree :=
    Engine.parse_eq_ok_iff.2 ⟨_, htokens',
      (d.regrouped places).ofTokens_of_le (d.depth_regrouped ▸ hdepth)⟩
  have hflatten := d.flatten_regrouped places
  refine ⟨_, hparse', hflatten, d.exists_groups places, ?_⟩
  intro φ σ _ host env state
  have hrun {σ' : Type} (host' : Host φ σ') :
      engine.run host' env (d.regrouped places).tree = engine.run host' env d.tree :=
    engine.run_congr (d.regrouped places).ne_nil_of_mem d.ne_nil_of_mem hflatten host' env
  have hevaluate {σ' : Type} (host' : Host φ σ') (state' : σ') :
      engine.evaluate host' env source' state' = engine.evaluate host' env source state' := by
    rw [Engine.evaluate_of_parse hparse, Engine.evaluate_of_parse hparse', hrun]
  exact ⟨hevaluate host state, congrArg (·.2.2) (hevaluate host.recorded (state, []))⟩

/-- A row with a comma between parentheses, one in a string, and two
outside. -/
def commaRowSource : String := "count(1, 1), 'a,b', count();"

def commaRow : OfProgram :=
  .last (.more (OfPrimary.call "count" ⟨0, 5⟩ ⟨5, 6⟩
      (.more (OfPrimary.number .one ⟨6, 7⟩).expression ⟨7, 8⟩
        (.last (OfPrimary.number .one ⟨9, 10⟩).expression)) ⟨10, 11⟩).expression ⟨11, 12⟩
    (.more (OfPrimary.text "a,b" ⟨13, 18⟩).expression ⟨18, 19⟩
      (.last (OfPrimary.bareCall "count" ⟨20, 25⟩ ⟨25, 26⟩ ⟨26, 27⟩).expression))) ⟨27, 28⟩

/-- With a semicolon for the first of the commas outside, the row makes the
same calls. -/
theorem Engine.evaluate_resequenced_row :
    ∃ q, (default : Engine).parse "count(1, 1); 'a,b', count();" = .ok q ∧
      q.statements.flatten.length = 3 ∧
      ((default : Engine).sourceCalls (Builtin.host 1) countingNames
        "count(1, 1); 'a,b', count();" .empty).map (fun call => call.2.length) = [2, 0] := by
  have htokens : tokenize commaRowSource = .ok commaRow.yield := by decide +kernel
  have hparse : (default : Engine).parse commaRowSource = .ok commaRow.tree :=
    Engine.parse_eq_ok_iff.2 ⟨commaRow.yield, htokens, commaRow.ofTokens_of_le (by decide)⟩
  have houter : ∀ t ∈ [⟨.comma, .symbol ',', ⟨11, 12⟩⟩], Token.OuterComma t commaRow.yield := by
    intro t ht
    obtain rfl := List.mem_singleton.1 ht
    exact ⟨commaRow.yield.take 6, commaRow.yield.drop 7, by decide, rfl, by decide⟩
  have hsource : "count(1, 1); 'a,b', count();".toList
      = Text.semicolonsAt [11] 0 commaRowSource.toList := by decide
  obtain ⟨q, hparse', hflatten, -, hevaluate⟩ :=
    Engine.evaluate_resequenced hparse htokens houter hsource
  obtain ⟨-, hcalls⟩ := hevaluate (Builtin.host 1) countingNames .empty
  refine ⟨q, hparse', hflatten ▸ rfl, ?_⟩
  rw [hcalls, Engine.sourceCalls_of_parse hparse]
  decide +kernel

end Reckoner
