/-
The grammar is unambiguous: tokens have one derivation at most. More
than that, where a derivation is followed by tokens that can follow it,
there is no second way to end it earlier or later. This is the form that
can be proved along the derivation, since the parts of a rule are
followed by the sign of the next part and not by the end.

Two derivations that use different rules are told apart by the first
token behind the part that they have in common: it is an operator or a
question mark for the longer one, and for the shorter one it is a token
that can follow, which neither of these is.
-/
import Reckoner.Proofs.Grammar.Completeness

namespace Reckoner.Derivation

open Reckoner.Parser

variable {rest rest' : List Token}

/-- An operator that sums are not made with cannot follow a product. -/
theorem not_afterProduct {op : Operator} {place : Span} (h : op.isAdditive = false) :
    ¬ AfterProduct (⟨.operator, .symbol op.symbol, place⟩ :: rest) := by
  rintro (hsum | ⟨op', hop', hadditive⟩)
  · exact absurd hsum.nextOperator? (by rw [nextOperator?_sign]; exact Option.some_ne_none _)
  · rw [nextOperator?_sign, Option.some.injEq] at hop'
    rw [hop', hadditive] at h
    cases h

/-- An operator is nothing that follows a sum. -/
theorem not_afterSum {op : Operator} {place : Span} :
    ¬ AfterSum (⟨.operator, .symbol op.symbol, place⟩ :: rest) :=
  fun h => absurd h.nextOperator? (by rw [nextOperator?_sign]; exact Option.some_ne_none _)

/-- A question mark is nothing that follows an expression. -/
theorem not_afterExpression {place : Span} :
    ¬ AfterExpression (⟨.questionMark, .symbol '?', place⟩ :: rest) :=
  fun h => absurd h.nextIs_question (by rw [nextIs_sign]; decide)

/-- No opening parenthesis can follow a primary: behind a name it would
begin the arguments of a call. -/
theorem not_afterPrimary {place : Span} :
    ¬ AfterPrimary (⟨.parenthesis, .symbol '(', place⟩ :: rest) := by
  intro h
  rw [AfterPrimary, nextIs_sign] at h
  cases h

/-- A statement is followed by its semicolon, or by the parenthesis that
closes the row it is. -/
def AfterStatement (rest : List Token) : Prop := ∃ c ∈ [';', ')'], nextIs c rest = true

/-- What can follow a statement can follow an expression. -/
theorem AfterStatement.afterExpression (h : AfterStatement rest) : AfterExpression rest := by
  obtain ⟨c, hc, hnext⟩ := h
  exact ⟨c, List.mem_cons_of_mem _ hc, hnext⟩

/-- A comma is nothing that follows a statement. -/
theorem not_afterStatement {place : Span} :
    ¬ AfterStatement (⟨.comma, .symbol ',', place⟩ :: rest) := by
  rintro ⟨c, hc, hnext⟩
  obtain rfl := nextIs_unique hnext (nextIs_sign ..)
  exact absurd hc (by decide)

theorem afterStatement_semicolon {place : Span} :
    AfterStatement (⟨.semicolon, .symbol ';', place⟩ :: rest) :=
  ⟨';', by decide, nextIs_sign ..⟩

theorem afterStatement_closing {place : Span} :
    AfterStatement (⟨.parenthesis, .symbol ')', place⟩ :: rest) :=
  ⟨')', by decide, nextIs_sign ..⟩

/-- No closing parenthesis begins a statement. -/
theorem OfStatement.not_closed (d : OfStatement) {place : Span} {rest rest' : List Token} :
    ⟨.parenthesis, .symbol ')', place⟩ :: rest' ≠ d.yield ++ rest := by
  intro heq
  have hbegins := d.begins rest
  rw [← heq] at hbegins
  exact absurd hbegins.unclosed (by rw [nextIs_sign]; decide)

theorem afterSum_question {place : Span} :
    AfterSum (⟨.questionMark, .symbol '?', place⟩ :: rest) :=
  ⟨'?', by decide, nextIs_sign ..⟩

theorem afterSum_colon {place : Span} : AfterSum (⟨.colon, .symbol ':', place⟩ :: rest) :=
  ⟨':', by decide, nextIs_sign ..⟩

theorem afterExpression_comma {place : Span} :
    AfterExpression (⟨.comma, .symbol ',', place⟩ :: rest) :=
  ⟨',', by decide, nextIs_sign ..⟩

theorem afterProduct_operator {op : Operator} {place : Span} (h : op.isAdditive = true) :
    AfterProduct (⟨.operator, .symbol op.symbol, place⟩ :: rest) :=
  .inr ⟨op, nextOperator?_sign .., h⟩

theorem afterPrimary_operator {op : Operator} {place : Span} :
    AfterPrimary (⟨.operator, .symbol op.symbol, place⟩ :: rest) :=
  nextIs_ne (nextIs_sign ..) (by cases op <;> decide)

/-- The first token in front of others can be told, and so can the
others. -/
theorem token_cons_inj {kind kind' : TokenKind} {payload payload' : Payload} {place place' : Span}
    (h : (⟨kind, payload, place⟩ :: rest : List Token) = ⟨kind', payload', place'⟩ :: rest') :
    payload = payload' ∧ place = place' ∧ rest = rest' := by
  injection h with hhead hrest
  injection hhead with _ hpayload hplace
  exact ⟨hpayload, hplace, hrest⟩

/-- The sign of an operator tells the operator. -/
theorem operator_sign_inj {op op' : Operator}
    (h : Payload.symbol op.symbol = .symbol op'.symbol) : op = op' := by
  injection h with hsymbol
  have hop : Operator.ofSymbol? op.symbol = some op' :=
    Operator.ofSymbol?_eq_some_iff.2 hsymbol
  rw [Operator.ofSymbol?_eq_some_iff.2 rfl, Option.some.injEq] at hop
  exact hop

mutual

/-- An expression ends in one way only. -/
theorem OfExpression.unique (d d' : OfExpression) {rest rest' : List Token}
    (h : AfterExpression rest) (h' : AfterExpression rest')
    (heq : d.yield ++ rest = d'.yield ++ rest') : d = d' ∧ rest = rest' := by
  cases d with
  | plain body =>
    cases d' with
    | plain body' =>
      obtain ⟨rfl, rfl⟩ := body.unique body' h.afterSum h'.afterSum heq
      exact ⟨rfl, rfl⟩
    | choice condition' question' whenTrue' colon' whenFalse' =>
      rw [OfExpression.yield, OfExpression.yield, List.append_assoc] at heq
      obtain ⟨-, rfl⟩ := body.unique condition' h.afterSum afterSum_question heq
      exact absurd h not_afterExpression
  | choice condition question whenTrue colon whenFalse =>
    cases d' with
    | plain body' =>
      rw [OfExpression.yield, OfExpression.yield, List.append_assoc] at heq
      obtain ⟨-, rfl⟩ := condition.unique body' afterSum_question h'.afterSum heq
      exact absurd h' not_afterExpression
    | choice condition' question' whenTrue' colon' whenFalse' =>
      simp only [OfExpression.yield, List.append_assoc, List.cons_append] at heq
      obtain ⟨rfl, hmid⟩ := condition.unique condition' afterSum_question afterSum_question heq
      obtain ⟨-, rfl, harms⟩ := token_cons_inj hmid
      obtain ⟨rfl, hlast⟩ := whenTrue.unique whenTrue' afterSum_colon afterSum_colon harms
      obtain ⟨-, rfl, hfalse⟩ := token_cons_inj hlast
      obtain ⟨rfl, rfl⟩ := whenFalse.unique whenFalse' h.afterSum h'.afterSum hfalse
      exact ⟨rfl, rfl⟩
termination_by structural d

/-- A sum ends in one way only. -/
theorem OfSum.unique (d d' : OfSum) {rest rest' : List Token} (h : AfterSum rest)
    (h' : AfterSum rest') (heq : d.yield ++ rest = d'.yield ++ rest') :
    d = d' ∧ rest = rest' := by
  cases d with
  | single operand =>
    cases d' with
    | single operand' =>
      obtain ⟨rfl, rfl⟩ := operand.unique operand' (.inl h) (.inl h') heq
      exact ⟨rfl, rfl⟩
    | joined left' op' additive' place' right' =>
      rw [OfSum.yield, OfSum.yield, List.append_assoc] at heq
      obtain ⟨-, rfl⟩ := operand.unique left' (.inl h) (afterProduct_operator additive') heq
      exact absurd h not_afterSum
  | joined left op additive place right =>
    cases d' with
    | single operand' =>
      rw [OfSum.yield, OfSum.yield, List.append_assoc] at heq
      obtain ⟨-, rfl⟩ := left.unique operand' (afterProduct_operator additive) (.inl h') heq
      exact absurd h' not_afterSum
    | joined left' op' additive' place' right' =>
      simp only [OfSum.yield, List.append_assoc, List.cons_append] at heq
      obtain ⟨rfl, hmid⟩ := left.unique left' (afterProduct_operator additive)
        (afterProduct_operator additive') heq
      obtain ⟨hsign, rfl, hright⟩ := token_cons_inj hmid
      obtain rfl := operator_sign_inj hsign
      obtain ⟨rfl, rfl⟩ := right.unique right' h h' hright
      exact ⟨rfl, rfl⟩
termination_by structural d

/-- A product ends in one way only. -/
theorem OfProduct.unique (d d' : OfProduct) {rest rest' : List Token} (h : AfterProduct rest)
    (h' : AfterProduct rest') (heq : d.yield ++ rest = d'.yield ++ rest') :
    d = d' ∧ rest = rest' := by
  cases d with
  | single operand =>
    cases d' with
    | single operand' =>
      obtain ⟨rfl, rfl⟩ := operand.unique operand' h.afterPrimary h'.afterPrimary heq
      exact ⟨rfl, rfl⟩
    | joined left' op' multiplicative' place' right' =>
      rw [OfProduct.yield, OfProduct.yield, List.append_assoc] at heq
      obtain ⟨-, rfl⟩ := operand.unique left' h.afterPrimary afterPrimary_operator heq
      exact absurd h (not_afterProduct multiplicative')
  | joined left op multiplicative place right =>
    cases d' with
    | single operand' =>
      rw [OfProduct.yield, OfProduct.yield, List.append_assoc] at heq
      obtain ⟨-, rfl⟩ := left.unique operand' afterPrimary_operator h'.afterPrimary heq
      exact absurd h' (not_afterProduct multiplicative)
    | joined left' op' multiplicative' place' right' =>
      simp only [OfProduct.yield, List.append_assoc, List.cons_append] at heq
      obtain ⟨rfl, hmid⟩ := left.unique left' afterPrimary_operator afterPrimary_operator heq
      obtain ⟨hsign, rfl, hright⟩ := token_cons_inj hmid
      obtain rfl := operator_sign_inj hsign
      obtain ⟨rfl, rfl⟩ := right.unique right' h h' hright
      exact ⟨rfl, rfl⟩
termination_by structural d

/-- A primary ends in one way only. -/
theorem OfPrimary.unique (d d' : OfPrimary) {rest rest' : List Token} (h : AfterPrimary rest)
    (h' : AfterPrimary rest') (heq : d.yield ++ rest = d'.yield ++ rest') :
    d = d' ∧ rest = rest' := by
  cases d with
  | number value place =>
    cases d' with
    | number value' place' =>
      obtain ⟨hvalue, rfl, rfl⟩ := token_cons_inj heq
      injection hvalue with hvalue
      exact ⟨by rw [hvalue], rfl⟩
    | _ => injection heq with hhead; cases hhead
  | text content place =>
    cases d' with
    | text content' place' =>
      obtain ⟨hcontent, rfl, rfl⟩ := token_cons_inj heq
      injection hcontent with hcontent
      exact ⟨by rw [hcontent], rfl⟩
    | _ => injection heq with hhead; cases hhead
  | identifier name place =>
    cases d' with
    | identifier name' place' =>
      obtain ⟨hname, rfl, rfl⟩ := token_cons_inj heq
      injection hname with hname
      exact ⟨by rw [hname], rfl⟩
    | bareCall name' place' opening' closing' =>
      obtain ⟨-, rfl⟩ := List.cons.inj heq
      exact absurd h not_afterPrimary
    | call name' place' opening' row' closing' =>
      obtain ⟨-, rfl⟩ := List.cons.inj heq
      exact absurd h not_afterPrimary
    | _ => injection heq with hhead; cases hhead
  | bareCall name place opening closing =>
    cases d' with
    | identifier name' place' =>
      obtain ⟨-, rfl⟩ := List.cons.inj heq
      exact absurd h' not_afterPrimary
    | bareCall name' place' opening' closing' =>
      obtain ⟨hname, rfl, hcall⟩ := token_cons_inj heq
      obtain ⟨-, rfl, hclosed⟩ := token_cons_inj hcall
      obtain ⟨-, rfl, rfl⟩ := token_cons_inj hclosed
      injection hname with hname
      exact ⟨by rw [hname], rfl⟩
    | call name' place' opening' row' closing' =>
      simp only [OfPrimary.yield, List.append_assoc, List.cons_append, List.nil_append,
        List.cons.injEq] at heq
      exact absurd heq.2.2 row'.not_closed
    | _ => injection heq with hhead; cases hhead
  | call name place opening row closing =>
    cases d' with
    | identifier name' place' =>
      obtain ⟨-, rfl⟩ := List.cons.inj heq
      exact absurd h' not_afterPrimary
    | bareCall name' place' opening' closing' =>
      simp only [OfPrimary.yield, List.append_assoc, List.cons_append, List.nil_append,
        List.cons.injEq] at heq
      exact absurd heq.2.2.symm row.not_closed
    | call name' place' opening' row' closing' =>
      simp only [OfPrimary.yield, List.append_assoc, List.cons_append, List.nil_append] at heq
      obtain ⟨hname, rfl, hcall⟩ := token_cons_inj heq
      obtain ⟨-, rfl, hrow⟩ := token_cons_inj hcall
      obtain ⟨rfl, hrest⟩ := row.unique row' afterStatement_closing afterStatement_closing hrow
      obtain ⟨-, rfl, rfl⟩ := token_cons_inj hrest
      injection hname with hname
      exact ⟨by rw [hname], rfl⟩
    | _ => injection heq with hhead; cases hhead
  | group opening row closing =>
    cases d' with
    | group opening' row' closing' =>
      simp only [OfPrimary.yield, List.append_assoc, List.cons_append, List.nil_append] at heq
      obtain ⟨-, rfl, hrow⟩ := token_cons_inj heq
      obtain ⟨rfl, hrest⟩ := row.unique row' afterStatement_closing afterStatement_closing hrow
      obtain ⟨-, rfl, rfl⟩ := token_cons_inj hrest
      exact ⟨rfl, rfl⟩
    | _ => injection heq with hhead; cases hhead
termination_by structural d

/-- A statement ends in one way only. -/
theorem OfStatement.unique (d d' : OfStatement) {rest rest' : List Token}
    (h : AfterStatement rest) (h' : AfterStatement rest')
    (heq : d.yield ++ rest = d'.yield ++ rest') : d = d' ∧ rest = rest' := by
  cases d with
  | last e =>
    cases d' with
    | last e' =>
      obtain ⟨rfl, rfl⟩ := e.unique e' h.afterExpression h'.afterExpression heq
      exact ⟨rfl, rfl⟩
    | more e' comma' others' =>
      rw [OfStatement.yield, OfStatement.yield, List.append_assoc] at heq
      obtain ⟨-, rfl⟩ := e.unique e' h.afterExpression afterExpression_comma heq
      exact absurd h not_afterStatement
  | more e comma others =>
    cases d' with
    | last e' =>
      rw [OfStatement.yield, OfStatement.yield, List.append_assoc] at heq
      obtain ⟨-, rfl⟩ := e.unique e' afterExpression_comma h'.afterExpression heq
      exact absurd h' not_afterStatement
    | more e' comma' others' =>
      simp only [OfStatement.yield, List.append_assoc, List.cons_append] at heq
      obtain ⟨rfl, hmid⟩ := e.unique e' afterExpression_comma afterExpression_comma heq
      obtain ⟨-, rfl, hothers⟩ := token_cons_inj hmid
      obtain ⟨rfl, rfl⟩ := others.unique others' h h' hothers
      exact ⟨rfl, rfl⟩
termination_by structural d

end

/-- A program ends in one way only, as long as no expression begins
behind it. -/
theorem OfProgram.unique (d d' : OfProgram) {rest rest' : List Token}
    (h : startsExpression rest = false) (h' : startsExpression rest' = false)
    (heq : d.yield ++ rest = d'.yield ++ rest') : d = d' ∧ rest = rest' := by
  induction d generalizing d' with
  | last s semicolon =>
    cases d' with
    | last s' semicolon' =>
      simp only [OfProgram.yield, List.append_assoc, List.cons_append, List.nil_append] at heq
      obtain ⟨rfl, hrest⟩ := s.unique s' afterStatement_semicolon afterStatement_semicolon heq
      obtain ⟨-, rfl, rfl⟩ := token_cons_inj hrest
      exact ⟨rfl, rfl⟩
    | more s' semicolon' others' =>
      simp only [OfProgram.yield, List.append_assoc, List.cons_append, List.nil_append] at heq
      obtain ⟨-, hrest⟩ := s.unique s' afterStatement_semicolon afterStatement_semicolon heq
      injection hrest with _ hrest
      rw [hrest, (others'.begins rest').starts] at h
      cases h
  | more s semicolon others ih =>
    cases d' with
    | last s' semicolon' =>
      simp only [OfProgram.yield, List.append_assoc, List.cons_append, List.nil_append] at heq
      obtain ⟨-, hrest⟩ := s.unique s' afterStatement_semicolon afterStatement_semicolon heq
      injection hrest with _ hrest
      rw [← hrest, (others.begins rest).starts] at h'
      cases h'
    | more s' semicolon' others' =>
      simp only [OfProgram.yield, List.append_assoc, List.cons_append] at heq
      obtain ⟨rfl, hrest⟩ := s.unique s' afterStatement_semicolon afterStatement_semicolon heq
      obtain ⟨-, rfl, hothers⟩ := token_cons_inj hrest
      obtain ⟨rfl, rfl⟩ := ih others' hothers
      exact ⟨rfl, rfl⟩

end Reckoner.Derivation
