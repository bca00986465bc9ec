/-
Derivations moved to other places. The grammar looks at the words of
tokens and not at where they stand, so tokens with the words of a
derivation have a derivation too, with the same tree and as deep. In
particular the parser reads the same program from them, under the same
limits.
-/
import Reckoner.Proofs.Grammar.Acceptance

namespace Reckoner

open Reckoner.Derivation

/-- A token is its word and its place. -/
theorem Token.eq_of_word {t : Token} {kind : TokenKind} {payload : Payload}
    (h : t.word = (kind, payload)) : t = ⟨kind, payload, t.span⟩ := by
  injection h with hkind hpayload
  rw [← hkind, ← hpayload]

/-- Tokens with the words of others and a token behind them are split
where these are. -/
theorem words_append_cons {ts front back : List Token} {t : Token}
    (h : ts.map Token.word = (front ++ t :: back).map Token.word) :
    ∃ front' span back', ts = front' ++ ⟨t.kind, t.payload, span⟩ :: back' ∧
      front'.map Token.word = front.map Token.word ∧
      back'.map Token.word = back.map Token.word := by
  rw [List.map_append, List.map_cons] at h
  obtain ⟨front', rest, rfl, hfront, hrest⟩ := List.map_eq_append_iff.1 h
  obtain ⟨t', back', rfl, ht, hback⟩ := List.map_eq_cons_iff.1 hrest
  exact ⟨front', t'.span, back', by rw [← Token.eq_of_word ht], hfront, hback⟩

/-- The same where the token is the first. -/
theorem words_cons {ts back : List Token} {t : Token}
    (h : ts.map Token.word = (t :: back).map Token.word) :
    ∃ span back', ts = ⟨t.kind, t.payload, span⟩ :: back' ∧
      back'.map Token.word = back.map Token.word := by
  obtain ⟨t', back', rfl, ht, hback⟩ := List.map_eq_cons_iff.1 h
  exact ⟨t'.span, back', by rw [← Token.eq_of_word ht], hback⟩

theorem words_nil {ts : List Token} (h : ts.map Token.word = ([] : List Token).map Token.word) :
    ts = [] :=
  List.map_eq_nil_iff.1 h

namespace Derivation

mutual

/-- An expression moved to other places: its signs are found where they
were, its parts are moved one by one. -/
theorem OfExpression.moved (d : OfExpression) {ts : List Token}
    (h : ts.map Token.word = d.yield.map Token.word) :
    ∃ d' : OfExpression, d'.yield = ts ∧ d'.tree = d.tree ∧ d'.depth = d.depth := by
  cases d with
  | plain body =>
    obtain ⟨body', rfl, htree, hdepth⟩ := body.moved h
    exact ⟨.plain body', rfl, htree, congrArg (· + 1) hdepth⟩
  | choice condition question whenTrue colon whenFalse =>
    obtain ⟨cs, question', rest, rfl, hcs, hrest⟩ := words_append_cons h
    obtain ⟨as, colon', bs, rfl, has, hbs⟩ := words_append_cons hrest
    obtain ⟨c, rfl, hctree, hcdepth⟩ := condition.moved hcs
    obtain ⟨a, rfl, hatree, hadepth⟩ := whenTrue.moved has
    obtain ⟨b, rfl, hbtree, hbdepth⟩ := whenFalse.moved hbs
    refine ⟨.choice c question' a colon' b, rfl, ?_, ?_⟩
    · simp only [OfExpression.tree, hctree, hatree, hbtree]
    · simp only [OfExpression.depth, hcdepth, hadepth, hbdepth]

/-- A sum is split at its operator. -/
theorem OfSum.moved (d : OfSum) {ts : List Token}
    (h : ts.map Token.word = d.yield.map Token.word) :
    ∃ d' : OfSum, d'.yield = ts ∧ d'.tree = d.tree ∧ d'.depth = d.depth := by
  cases d with
  | single operand =>
    obtain ⟨operand', rfl, htree, hdepth⟩ := operand.moved h
    exact ⟨.single operand', rfl, htree, congrArg (· + 1) hdepth⟩
  | joined left op additive place right =>
    obtain ⟨ls, place', rs, rfl, hls, hrs⟩ := words_append_cons h
    obtain ⟨l, rfl, hltree, hldepth⟩ := left.moved hls
    obtain ⟨r, rfl, hrtree, hrdepth⟩ := right.moved hrs
    refine ⟨.joined l op additive place' r, rfl, ?_, ?_⟩
    · simp only [OfSum.tree, hltree, hrtree]
    · simp only [OfSum.depth, hldepth, hrdepth]

/-- A product is split at its operator. -/
theorem OfProduct.moved (d : OfProduct) {ts : List Token}
    (h : ts.map Token.word = d.yield.map Token.word) :
    ∃ d' : OfProduct, d'.yield = ts ∧ d'.tree = d.tree ∧ d'.depth = d.depth := by
  cases d with
  | single operand =>
    obtain ⟨operand', rfl, htree, hdepth⟩ := operand.moved h
    exact ⟨.single operand', rfl, htree, congrArg (· + 1) hdepth⟩
  | joined left op multiplicative place right =>
    obtain ⟨ls, place', rs, rfl, hls, hrs⟩ := words_append_cons h
    obtain ⟨l, rfl, hltree, hldepth⟩ := left.moved hls
    obtain ⟨r, rfl, hrtree, hrdepth⟩ := right.moved hrs
    refine ⟨.joined l op multiplicative place' r, rfl, ?_, ?_⟩
    · simp only [OfProduct.tree, hltree, hrtree]
    · simp only [OfProduct.depth, hldepth, hrdepth]

/-- A primary keeps its tokens, and the row between its parentheses is
moved. -/
theorem OfPrimary.moved (d : OfPrimary) {ts : List Token}
    (h : ts.map Token.word = d.yield.map Token.word) :
    ∃ d' : OfPrimary, d'.yield = ts ∧ d'.tree = d.tree ∧ d'.depth = d.depth := by
  cases d with
  | number value place =>
    obtain ⟨place', rest, rfl, hrest⟩ := words_cons h
    obtain rfl := words_nil hrest
    exact ⟨.number value place', rfl, rfl, rfl⟩
  | text content place =>
    obtain ⟨place', rest, rfl, hrest⟩ := words_cons h
    obtain rfl := words_nil hrest
    exact ⟨.text content place', rfl, rfl, rfl⟩
  | identifier name place =>
    obtain ⟨place', rest, rfl, hrest⟩ := words_cons h
    obtain rfl := words_nil hrest
    exact ⟨.identifier name place', rfl, rfl, rfl⟩
  | bareCall name place opening closing =>
    obtain ⟨place', behind, rfl, hbehind⟩ := words_cons h
    obtain ⟨opening', closed, rfl, hclosed⟩ := words_cons hbehind
    obtain ⟨closing', rest, rfl, hrest⟩ := words_cons hclosed
    obtain rfl := words_nil hrest
    exact ⟨.bareCall name place' opening' closing', rfl, rfl, rfl⟩
  | call name place opening arguments closing =>
    obtain ⟨place', behind, rfl, hbehind⟩ := words_cons h
    obtain ⟨opening', closed, rfl, hclosed⟩ := words_cons hbehind
    obtain ⟨row, closing', rest, rfl, hrow, hrest⟩ := words_append_cons hclosed
    obtain rfl := words_nil hrest
    obtain ⟨row', rfl, htrees, hdepth⟩ := arguments.moved hrow
    exact ⟨.call name place' opening' row' closing', rfl, congrArg (Expr.call name) htrees, hdepth⟩
  | group opening body closing =>
    obtain ⟨opening', closed, rfl, hclosed⟩ := words_cons h
    obtain ⟨row, closing', rest, rfl, hrow, hrest⟩ := words_append_cons hclosed
    obtain rfl := words_nil hrest
    obtain ⟨row', rfl, htrees, hdepth⟩ := body.moved hrow
    exact ⟨.group opening' row' closing', rfl, congrArg Expr.group htrees, hdepth⟩

/-- A row is split at its first comma. -/
theorem OfStatement.moved (d : OfStatement) {ts : List Token}
    (h : ts.map Token.word = d.yield.map Token.word) :
    ∃ d' : OfStatement, d'.yield = ts ∧ d'.trees = d.trees ∧ d'.depth = d.depth := by
  cases d with
  | last e =>
    obtain ⟨e', rfl, htree, hdepth⟩ := e.moved h
    exact ⟨.last e', rfl, congrArg (fun t => [t]) htree, hdepth⟩
  | more e comma rest =>
    obtain ⟨es, comma', ts', rfl, hes, hts⟩ := words_append_cons h
    obtain ⟨e', rfl, hetree, hedepth⟩ := e.moved hes
    obtain ⟨rest', rfl, hrtrees, hrdepth⟩ := rest.moved hts
    refine ⟨.more e' comma' rest', rfl, ?_, ?_⟩
    · simp only [OfStatement.trees, hetree, hrtrees]
    · simp only [OfStatement.depth, hedepth, hrdepth]

end

/-- Tokens with the words of a derivation have one with the same tree that
is as deep. -/
theorem OfProgram.moved (d : OfProgram) {ts : List Token}
    (h : ts.map Token.word = d.yield.map Token.word) :
    ∃ d' : OfProgram, d'.yield = ts ∧ d'.tree = d.tree ∧ d'.depth = d.depth := by
  suffices ∃ d' : OfProgram, d'.yield = ts ∧ d'.statements = d.statements ∧ d'.depth = d.depth by
    obtain ⟨d', hyield, hstatements, hdepth⟩ := this
    exact ⟨d', hyield, congrArg Program.mk hstatements, hdepth⟩
  induction d generalizing ts with
  | last s semicolon =>
    obtain ⟨row, semicolon', rest, rfl, hrow, hrest⟩ := words_append_cons h
    obtain rfl := words_nil hrest
    obtain ⟨s', rfl, htrees, hdepth⟩ := s.moved hrow
    exact ⟨.last s' semicolon', rfl, congrArg (fun t => [t]) htrees, hdepth⟩
  | more s semicolon others ih =>
    obtain ⟨row, semicolon', rest, rfl, hrow, hrest⟩ := words_append_cons h
    obtain ⟨s', rfl, htrees, hdepth⟩ := s.moved hrow
    obtain ⟨others', rfl, hstatements, hothers⟩ := ih hrest
    refine ⟨.more s' semicolon' others', rfl, ?_, ?_⟩
    · simp only [OfProgram.statements, htrees, hstatements]
    · simp only [OfProgram.depth, hdepth, hothers]

/-- What the parser makes of tokens with the words of a derivation. -/
theorem OfProgram.ofTokens_moved (d : OfProgram) {ts : List Token}
    (h : ts.map Token.word = d.yield.map Token.word) (limit : Nat) :
    (d.depth ≤ limit → Program.ofTokens limit ts = .ok d.tree) ∧
      (limit < d.depth →
        ∃ span, Program.ofTokens limit ts = .error ⟨.maxDepthExceeded limit, span⟩) := by
  obtain ⟨d', rfl, htree, hdepth⟩ := d.moved h
  rw [← htree, ← hdepth]
  exact ⟨d'.ofTokens_of_le, d'.ofTokens_of_lt⟩

end Derivation

end Reckoner
