/-
What the rules of the parser do in front of a derivation. In front of
the yield of any derivation, and of tokens that can follow it, a rule
takes exactly that yield and builds its tree, if the levels it has left
are as many as the derivation is deep. With fewer levels it is refused
for want of depth, and for no other reason.

The statement is one for all levels and all tokens that come after, so
that it can be proved along the derivation: the parts of a rule are read
one level down, each in front of the sign that the next part begins
with. What may come after differs from rule to rule. It is what tells
the end of a part from its middle, so these conditions are the whole
reason why one token of look-ahead is enough.
-/
import Reckoner.Program.Parser
import Reckoner.Proofs.Grammar.Derivation

namespace Reckoner

open Reckoner.Parser Reckoner.Derivation

-- ================================================== readings that fit

/-- An answer that is `a` as far as the depth admits it, and a refusal
for want of depth where it does not. -/
structure Parser.Fits {α : Type} (fits : Prop) (result : Except Stop α) (a : α) : Prop where
  accepted : fits → result = .ok a
  refused : ¬ fits → ∃ left, result = .error ⟨.tooDeep, left⟩

namespace Parser.Fits

variable {α β : Type} {P Q : Prop} {result : Except Stop α} {a : α}

theorem pure (a : α) : Fits True (.ok a) a :=
  ⟨fun _ => rfl, fun h => absurd trivial h⟩

/-- A step and what follows it fit if both do. -/
theorem bind {next : α → Except Stop β} {b : β} (first : Fits P result a)
    (second : Fits Q (next a) b) : Fits (P ∧ Q) (result >>= next) b := by
  constructor
  · rintro ⟨hp, hq⟩
    rw [first.accepted hp]
    exact second.accepted hq
  · intro h
    by_cases hp : P
    · rw [first.accepted hp]
      exact second.refused fun hq => h ⟨hp, hq⟩
    · obtain ⟨left, hleft⟩ := first.refused hp
      exact ⟨left, by rw [hleft]; rfl⟩

theorem bind_ok {next : α → Except Stop β} {b : β} (first : result = .ok a)
    (second : Fits Q (next a) b) : Fits Q (result >>= next) b := by
  rw [first]
  exact second

/-- A last step that only puts the answer into another form. -/
theorem map {next : α → Except Stop β} {b : β} (first : Fits P result a)
    (second : next a = .ok b) : Fits P (result >>= next) b := by
  constructor
  · intro hp
    rw [first.accepted hp]
    exact second
  · intro hp
    obtain ⟨left, hleft⟩ := first.refused hp
    exact ⟨left, by rw [hleft]; rfl⟩

theorem congr (h : Fits P result a) (same : P ↔ Q) : Fits Q result a :=
  ⟨fun hq => h.accepted (same.2 hq), fun hq => h.refused fun hp => hq (same.1 hp)⟩

/-- At level zero every rule is refused. -/
theorem tooDeep (tokens : List Token) {depth : Nat} (h : 0 < depth) {a : Reading Expr} :
    Fits (depth ≤ 0) (tooDeep.run tokens) a :=
  ⟨fun hle => by omega, fun _ => ⟨tokens, rfl⟩⟩

end Parser.Fits

-- ================================================== the token that is next

namespace Parser

variable {tokens : List Token} {c d : Char}

/-- The sign that the next token carries is one. -/
theorem nextIs_unique (hc : nextIs c tokens = true) (hd : nextIs d tokens = true) : c = d := by
  cases tokens with
  | nil => cases hc
  | cons t rest =>
    simp only [nextIs, Token.carries, beq_iff_eq] at hc hd
    rw [hc] at hd
    injection hd

/-- Only one sign is next. -/
theorem nextIs_ne (hc : nextIs c tokens = true) (hne : c ≠ d) : nextIs d tokens = false := by
  rw [Bool.eq_false_iff]
  exact fun hd => hne (nextIs_unique hc hd)

/-- Where an operator is next, so is its sign. -/
theorem nextIs_of_nextOperator? {op : Operator} (h : nextOperator? tokens = some op) :
    nextIs op.symbol tokens = true := by
  cases tokens with
  | nil => cases h
  | cons t rest =>
    simp only [nextOperator?, List.head?_cons, Option.bind_some, Token.operator?] at h
    split at h
    · next hpayload =>
      rw [Operator.ofSymbol?_eq_some_iff] at h
      simp [nextIs, Token.carries, hpayload, h]
    · cases h

/-- A sign that is none of an operator's shows that no operator is
next. -/
theorem nextOperator?_eq_none (hc : nextIs c tokens = true)
    (h : ∀ op : Operator, op.symbol ≠ c) : nextOperator? tokens = none := by
  cases hop : nextOperator? tokens with
  | none => rfl
  | some op => exact absurd (nextIs_unique (nextIs_of_nextOperator? hop) hc) (h op)

-- ============================================== what can come afterwards

/-- What can follow an expression: a sign that the row around it goes on
or ends with. -/
def AfterExpression (tokens : List Token) : Prop :=
  ∃ c ∈ [',', ';', ')'], nextIs c tokens = true

/-- What can follow a sum: what follows an expression, or a sign of the
choice around it. -/
def AfterSum (tokens : List Token) : Prop :=
  ∃ c ∈ operandEnds, nextIs c tokens = true

/-- What can follow a product: what follows a sum, or an operator that
sums are made with. -/
def AfterProduct (tokens : List Token) : Prop :=
  AfterSum tokens ∨ ∃ op, nextOperator? tokens = some op ∧ op.isAdditive = true

/-- What can follow a primary: anything that does not make a name the
name of a call. -/
def AfterPrimary (tokens : List Token) : Prop := nextIs '(' tokens = false

/-- What can follow an expression can follow a sum. -/
theorem AfterExpression.afterSum (h : AfterExpression tokens) : AfterSum tokens := by
  obtain ⟨c, hc, hnext⟩ := h
  refine ⟨c, ?_, hnext⟩
  revert hc
  simp only [operandEnds, List.mem_cons, List.not_mem_nil, or_false]
  rintro (rfl | rfl | rfl) <;> simp

theorem AfterExpression.nextIs_question (h : AfterExpression tokens) :
    nextIs '?' tokens = false := by
  obtain ⟨c, hc, hnext⟩ := h
  refine nextIs_ne hnext ?_
  rintro rfl
  revert hc
  decide

/-- What can follow a sum is no operator. -/
theorem AfterSum.nextOperator? (h : AfterSum tokens) : nextOperator? tokens = none := by
  obtain ⟨c, hc, hnext⟩ := h
  refine nextOperator?_eq_none hnext fun op => ?_
  rintro rfl
  revert hc
  cases op <;> decide

theorem AfterSum.ends (h : AfterSum tokens) : operandEnds.any (nextIs · tokens) = true :=
  List.any_eq_true.2 h

/-- What can follow a product can follow a primary. -/
theorem AfterProduct.afterPrimary (h : AfterProduct tokens) : AfterPrimary tokens := by
  rcases h with ⟨c, hc, hnext⟩ | ⟨op, hop, -⟩
  · refine nextIs_ne hnext ?_
    rintro rfl
    revert hc
    decide
  · refine nextIs_ne (nextIs_of_nextOperator? hop) ?_
    cases op <;> decide

-- ==================================================== rows, sign by sign

section Rows

variable (item : Rule Expr) {closers : List Char} {rest : List Token}

/-- What the rule for rows does behind an expression. -/
theorem rowTail_eq (closers : List Char) (tokens : List Token) :
    rowTail item closers tokens =
      if nextIs ',' tokens then row item closers tokens.tail
      else if closers.any (nextIs · tokens) then .ok ([], tokens)
      else unexpected ((',' :: closers).map .symbol) tokens := by
  by_cases hcomma : nextIs ',' tokens = true
  · rw [rowTail, if_pos hcomma, if_pos hcomma, row]
    split
    · next stop hitem =>
      rw [hitem]
      rfl
    · next e left hitem =>
      rw [hitem]
      show _ = (rowTail item closers left >>= fun x => _)
      cases rowTail item closers left <;> rfl
  · rw [rowTail, if_neg hcomma, if_neg hcomma]

theorem rowTail_comma (comma : Span) :
    rowTail item closers (⟨.comma, .symbol ',', comma⟩ :: rest) = row item closers rest := by
  rw [rowTail_eq, if_pos (by simp [nextIs, Token.carries])]
  rfl

/-- A row ends before one of its closing signs, which commas are not. -/
theorem rowTail_closed {c : Char} (hc : c ∈ closers) (hne : c ≠ ',')
    (hnext : nextIs c rest = true) :
    rowTail item closers rest = .ok ([], rest) := by
  rw [rowTail, if_neg (by simp [nextIs_ne hnext hne]), if_pos]
  exact List.any_eq_true.2 ⟨c, hc, hnext⟩

end Rows

theorem statements_eq (rule : Rule Statement) (tokens : List Token) :
    statements rule tokens = do
      let (s, rest) ← rule.run tokens
      let rest ← expect ';' rest
      if startsExpression rest then
        let (ss, rest) ← statements rule rest
        return (s :: ss, rest)
      else return ([s], rest) := by
  rw [statements]
  split
  · next stop hrule =>
    rw [hrule]
    rfl
  · next s left hrule =>
    rw [hrule]
    show _ = (expect ';' left >>= fun x => _)
    split
    · next stop hexpect =>
      rw [hexpect]
      rfl
    · next left' hexpect =>
      rw [hexpect]
      show _ = if startsExpression left' = true then
        statements rule left' >>= fun x => _ else _
      by_cases hstarts : startsExpression left' = true
      · rw [if_pos hstarts, if_pos hstarts]
        cases statements rule left' <;> rfl
      · rw [if_neg hstarts, if_neg hstarts]
        rfl

-- ===================================================== tokens made for signs

theorem nextIs_sign (kind : TokenKind) (c : Char) (place : Span) (rest : List Token) :
    nextIs c (⟨kind, .symbol c, place⟩ :: rest) = true := by
  simp [nextIs, Token.carries]

theorem nextOperator?_sign (op : Operator) (place : Span) (rest : List Token) :
    nextOperator? (⟨.operator, .symbol op.symbol, place⟩ :: rest) = some op := by
  simp [nextOperator?, Token.operator?, Operator.ofSymbol?_eq_some_iff]

theorem expect_sign (kind : TokenKind) (c : Char) (place : Span) (rest : List Token) :
    expect c (⟨kind, .symbol c, place⟩ :: rest) = .ok rest := by
  rw [expect, if_pos (nextIs_sign ..)]
  rfl

/-- How the tokens of an expression begin: with one that can begin an
expression, and never with the one that closes the arguments of a
call. -/
structure Begins (tokens : List Token) : Prop where
  starts : startsExpression tokens = true
  unclosed : nextIs ')' tokens = false

end Parser

-- ============================================ derivations begin expressions

namespace Derivation

mutual

/-- The tokens of a derivation begin as an expression does. This is shown
for each kind of phrase. -/
theorem OfExpression.begins (d : OfExpression) (rest : List Token) : Begins (d.yield ++ rest) := by
  cases d with
  | plain body => exact body.begins rest
  | choice condition question whenTrue colon whenFalse =>
    rw [OfExpression.yield, List.append_assoc]
    exact condition.begins _

theorem OfSum.begins (d : OfSum) (rest : List Token) : Begins (d.yield ++ rest) := by
  cases d with
  | single operand => exact operand.begins rest
  | joined left op additive place right =>
    rw [OfSum.yield, List.append_assoc]
    exact left.begins _

theorem OfProduct.begins (d : OfProduct) (rest : List Token) : Begins (d.yield ++ rest) := by
  cases d with
  | single operand => exact operand.begins rest
  | joined left op multiplicative place right =>
    rw [OfProduct.yield, List.append_assoc]
    exact left.begins _

theorem OfPrimary.begins (d : OfPrimary) (rest : List Token) : Begins (d.yield ++ rest) := by
  constructor <;> cases d <;>
    simp [OfPrimary.yield, startsExpression, nextIs, Token.carries]

end

/-- A statement begins as an expression does. -/
theorem OfStatement.begins (d : OfStatement) (rest : List Token) : Begins (d.yield ++ rest) := by
  cases d with
  | last e => exact e.begins rest
  | more e comma row =>
    rw [OfStatement.yield, List.append_assoc]
    exact e.begins _

/-- A program begins as an expression does. -/
theorem OfProgram.begins (d : OfProgram) (rest : List Token) : Begins (d.yield ++ rest) := by
  cases d with
  | last s semicolon =>
    rw [OfProgram.yield, List.append_assoc]
    exact s.begins _
  | more s semicolon others =>
    rw [OfProgram.yield, List.append_assoc]
    exact s.begins _

-- ================================================ rules before derivations

mutual

/-- The rule for expressions in front of one. -/
theorem OfExpression.reads (d : OfExpression) (n : Nat) {rest : List Token}
    (h : AfterExpression rest) :
    Fits (d.depth ≤ n) ((Grammar.ofDepth n).expression.run (d.yield ++ rest)) (d.tree, rest) := by
  cases n with
  | zero => exact Fits.tooDeep _ (by cases d <;> simp [OfExpression.depth])
  | succ n =>
    show Fits _ (choiceRun (Grammar.ofDepth n).sum _) _
    rw [choiceRun, if_pos (d.begins rest).starts]
    cases d with
    | plain body =>
      refine (Fits.map (body.reads n h.afterSum) ?_).congr ?_
      · simp [h.nextIs_question, OfExpression.tree, pure, Except.pure]
      · simp [OfExpression.depth]
    | choice condition question whenTrue colon whenFalse =>
      have hquestion : AfterSum (⟨.questionMark, .symbol '?', question⟩ ::
          (whenTrue.yield ++ ⟨.colon, .symbol ':', colon⟩ :: (whenFalse.yield ++ rest))) :=
        ⟨'?', by decide, nextIs_sign ..⟩
      have hcolon : AfterSum (⟨.colon, .symbol ':', colon⟩ :: (whenFalse.yield ++ rest)) :=
        ⟨':', by decide, nextIs_sign ..⟩
      simp only [OfExpression.yield, List.append_assoc, List.cons_append]
      refine Fits.congr (P := condition.depth ≤ n ∧ whenTrue.depth ≤ n ∧ whenFalse.depth ≤ n)
        (Fits.bind (condition.reads n hquestion) ?_) ?_
      · dsimp only
        rw [if_pos (nextIs_sign ..)]
        refine Fits.bind (whenTrue.reads n hcolon) (Fits.bind_ok (expect_sign ..) ?_)
        exact Fits.map (whenFalse.reads n h.afterSum) rfl
      · simp only [OfExpression.depth]
        omega

/-- The rule for sums reads the tokens of a derivation, if its levels are
enough, and leaves the rest. -/
theorem OfSum.reads (d : OfSum) (n : Nat) {rest : List Token} (h : AfterSum rest) :
    Fits (d.depth ≤ n) ((Grammar.ofDepth n).sum.run (d.yield ++ rest)) (d.tree, rest) := by
  cases n with
  | zero => exact Fits.tooDeep _ (by cases d <;> simp [OfSum.depth])
  | succ n =>
    show Fits _ (sumRun (Grammar.ofDepth n).product (Grammar.ofDepth n).sum _) _
    rw [sumRun, if_pos (d.begins rest).starts]
    cases d with
    | single operand =>
      refine (Fits.map (operand.reads n (.inl h)) ?_).congr ?_
      · simp [h.nextOperator?, h.ends, OfSum.tree, pure, Except.pure]
      · simp [OfSum.depth]
    | joined left op additive place right =>
      have hop : AfterProduct (⟨.operator, .symbol op.symbol, place⟩ :: (right.yield ++ rest)) :=
        .inr ⟨op, nextOperator?_sign .., additive⟩
      simp only [OfSum.yield, List.append_assoc, List.cons_append]
      refine Fits.congr (P := left.depth ≤ n ∧ right.depth ≤ n)
        (Fits.bind (left.reads n hop) ?_) ?_
      · simp only [nextOperator?_sign, Option.filter_some, additive, if_true]
        exact Fits.map (right.reads n h) rfl
      · simp only [OfSum.depth]
        omega

/-- So does the rule for products. -/
theorem OfProduct.reads (d : OfProduct) (n : Nat) {rest : List Token} (h : AfterProduct rest) :
    Fits (d.depth ≤ n) ((Grammar.ofDepth n).product.run (d.yield ++ rest)) (d.tree, rest) := by
  cases n with
  | zero => exact Fits.tooDeep _ (by cases d <;> simp [OfProduct.depth])
  | succ n =>
    show Fits _ (productRun (primary (Grammar.ofDepth n).expression)
      (Grammar.ofDepth n).product _) _
    rw [productRun, if_pos (d.begins rest).starts]
    cases d with
    | single operand =>
      refine (Fits.map (operand.reads n h.afterPrimary) ?_).congr ?_
      · rcases h with h | ⟨op, hop, hadditive⟩
        · simp [h.nextOperator?, h.ends, OfProduct.tree, pure, Except.pure]
        · simp [hop, hadditive, OfProduct.tree, pure, Except.pure]
      · simp [OfProduct.depth]
    | joined left op multiplicative place right =>
      have hop : AfterPrimary (⟨.operator, .symbol op.symbol, place⟩ :: (right.yield ++ rest)) :=
        nextIs_ne (nextIs_sign ..) (by cases op <;> decide)
      simp only [OfProduct.yield, List.append_assoc, List.cons_append]
      refine Fits.congr (P := left.depth ≤ n ∧ right.depth ≤ n)
        (Fits.bind (left.reads n hop) ?_) ?_
      · simp only [nextOperator?_sign, multiplicative, Bool.false_eq_true, if_false]
        exact Fits.map (right.reads n h) rfl
      · simp only [OfProduct.depth]
        omega

/-- So does the rule for primaries. -/
theorem OfPrimary.reads (d : OfPrimary) (n : Nat) {rest : List Token} (h : AfterPrimary rest) :
    Fits (d.depth ≤ n) ((primary (Grammar.ofDepth n).expression).run (d.yield ++ rest))
      (d.tree, rest) := by
  have leaf : True ↔ 0 ≤ n := by simp
  cases d with
  | number value place => exact (Fits.pure _).congr leaf
  | text content place => exact (Fits.pure _).congr leaf
  | identifier name place =>
    show Fits _ (named _ name rest) _
    rw [named, if_neg (by rw [h]; decide)]
    exact (Fits.pure _).congr leaf
  | bareCall name place opening closing =>
    show Fits _ (named _ name (⟨.parenthesis, .symbol '(', opening⟩ ::
      ⟨.parenthesis, .symbol ')', closing⟩ :: rest)) _
    rw [named, if_pos (nextIs_sign ..), List.tail_cons, arguments, if_pos (nextIs_sign ..)]
    refine Fits.congr (Fits.bind_ok rfl ?_) leaf
    dsimp only
    rw [expect_sign]
    exact Fits.pure _
  | call name place opening row closing =>
    show Fits _ (named _ name (⟨.parenthesis, .symbol '(', opening⟩ ::
      ((row.yield ++ [⟨.parenthesis, .symbol ')', closing⟩]) ++ rest))) _
    have hbegins := row.begins ([⟨.parenthesis, .symbol ')', closing⟩] ++ rest)
    rw [named, if_pos (nextIs_sign ..), List.tail_cons, List.append_assoc, arguments,
      if_neg (by rw [hbegins.unclosed]; decide), if_pos hbegins.starts]
    refine Fits.map (row.reads n (c := ')') (by decide) (by decide) (nextIs_sign ..)) ?_
    dsimp only [List.cons_append]
    rw [expect_sign]
    rfl
  | group opening row closing =>
    show Fits _ (grouped _ ((row.yield ++ [⟨.parenthesis, .symbol ')', closing⟩]) ++ rest)) _
    rw [grouped, List.append_assoc]
    refine Fits.map (row.reads n (c := ')') (by decide) (by decide) (nextIs_sign ..)) ?_
    dsimp only [List.cons_append]
    rw [expect_sign]
    rfl

/-- Rows of expressions in front of one, up to one of the signs that end
statements and arguments. -/
theorem OfStatement.reads (d : OfStatement) (n : Nat) {closers : List Char} {c : Char}
    {rest : List Token} (hc : c ∈ closers) (hend : c ∈ [';', ')']) (hnext : nextIs c rest = true) :
    Fits (d.depth ≤ n) (row (Grammar.ofDepth n).expression closers (d.yield ++ rest))
      (d.trees, rest) := by
  have hne : c ≠ ',' := by
    rintro rfl
    revert hend
    decide
  cases d with
  | last e =>
    refine Fits.map (e.reads n ⟨c, List.mem_cons_of_mem _ hend, hnext⟩) ?_
    dsimp only
    rw [rowTail_closed _ hc hne hnext]
    rfl
  | more e comma others =>
    have hcomma : AfterExpression (⟨.comma, .symbol ',', comma⟩ :: (others.yield ++ rest)) :=
      ⟨',', by decide, nextIs_sign ..⟩
    simp only [OfStatement.yield, List.append_assoc, List.cons_append]
    refine Fits.congr (P := e.depth ≤ n ∧ others.depth ≤ n) (Fits.bind (e.reads n hcomma) ?_) ?_
    · dsimp only
      rw [rowTail_comma]
      exact Fits.map (others.reads n hc hend hnext) rfl
    · simp only [OfStatement.depth]
      omega

end

/-- The statements of a program in front of one, as long as no
expression begins behind it. -/
theorem OfProgram.reads (d : OfProgram) (n : Nat) {rest : List Token}
    (h : startsExpression rest = false) :
    Fits (d.depth ≤ n)
      (Parser.statements (statement (Grammar.ofDepth n).expression) (d.yield ++ rest))
      (d.statements, rest) := by
  induction d with
  | last s semicolon =>
    rw [statements_eq, OfProgram.yield, List.append_assoc]
    refine Fits.map (s.reads n (c := ';') (by decide) (by decide) (nextIs_sign ..)) ?_
    simp only [List.cons_append, List.nil_append, expect_sign]
    show (if startsExpression rest = true then _ else _) = _
    rw [if_neg (by rw [h]; decide)]
    rfl
  | more s semicolon others ih =>
    rw [statements_eq, OfProgram.yield, List.append_assoc]
    refine Fits.congr (P := s.depth ≤ n ∧ others.depth ≤ n)
      (Fits.bind (s.reads n (c := ';') (by decide) (by decide) (nextIs_sign ..)) ?_) ?_
    · dsimp only [List.cons_append]
      refine Fits.bind_ok (expect_sign ..) ?_
      rw [if_pos (others.begins rest).starts]
      exact Fits.map ih rfl
    · simp only [OfProgram.depth]
      omega

end Derivation

end Reckoner
