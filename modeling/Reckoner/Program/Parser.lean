/-
Reading tokens into a program. The grammar, from the loosest binding to
the tightest:

  program    = statement ';' { statement ';' }
  statement  = expression { ',' expression }
  expression = sum [ '?' sum ':' sum ]
  sum        = product [ ('+' | '-') sum ]
  product    = primary [ ('*' | '/') product ]
  primary    = number | string | identifier [ '(' [ statement ] ')' ]
             | '(' statement ')'

Operators of one rank therefore group to the right, and the arms of a
choice are no choices themselves unless parentheses make them so.

Each rule is written for given readers of the parts that it names, and
`Grammar.ofDepth` joins the rules level by level: a rule at one level
reads its parts with the rules one level down, and at level zero every
rule refuses. The level is the number of expressions, sums and products
that may still be open around a token, so the limit on nesting and the
end of the recursion are the same thing.
-/
import Reckoner.Program.Basic
import Reckoner.Program.Rule

namespace Reckoner

namespace Parser

-- ==================================================== rows of expressions

section Rows

variable (item : Rule Expr)

/-- What follows an expression in a row: nothing before one of the
closing signs, or a comma and the rest of the row. -/
def rowTail (closers : List Char) (tokens : List Token) : Except Stop (Reading (List Expr)) :=
  if nextIs ',' tokens then
    match _ : item.run tokens.tail with
    | .error stop => .error stop
    | .ok (e, rest) =>
      match rowTail closers rest with
      | .error stop => .error stop
      | .ok (es, rest) => .ok (e :: es, rest)
  else if closers.any (nextIs · tokens) then .ok ([], tokens)
  else unexpected ((',' :: closers).map .symbol) tokens
termination_by tokens.length
decreasing_by
  have := item.consumes ‹_›
  have : tokens.tail.length ≤ tokens.length := by simp
  omega

theorem rowTail_length {closers : List Char} {tokens rest : List Token} {es : List Expr}
    (h : rowTail item closers tokens = .ok (es, rest)) : rest.length ≤ tokens.length := by
  fun_induction rowTail item closers tokens generalizing es with
  | case1 => cases h
  | case2 => cases h
  | case3 tokens _ e mid hitem es' rest' htail ih =>
    cases h
    have := item.consumes hitem
    have := ih htail
    have : tokens.tail.length ≤ tokens.length := by simp
    omega
  | case4 => cases h; exact Nat.le_refl _
  | case5 => cases h

/-- One or more expressions joined by commas, up to one of the closing
signs, which is left in place. -/
def row (closers : List Char) (tokens : List Token) : Except Stop (Reading (List Expr)) := do
  let (e, rest) ← item.run tokens
  let (es, rest) ← rowTail item closers rest
  return (e :: es, rest)

theorem row_length {closers : List Char} {tokens rest : List Token} {es : List Expr}
    (h : row item closers tokens = .ok (es, rest)) : rest.length < tokens.length := by
  unfold row at h
  simp only [bind, Except.bind, pure, Except.pure] at h
  split at h
  · cases h
  · next hitem =>
    split at h
    · cases h
    · next htail =>
      cases h
      exact Nat.lt_of_le_of_lt (rowTail_length item htail) (item.consumes hitem)

/-- A statement ends before a semicolon or a closing parenthesis. -/
def statement : Rule Statement := ⟨row item [';', ')'], row_length item⟩

/-- The arguments of a call, of which there may be none. -/
def arguments (tokens : List Token) : Except Stop (Reading (List Expr)) :=
  if nextIs ')' tokens then .ok ([], tokens)
  else if startsExpression tokens then row item [')'] tokens
  else unexpected argumentStarts tokens

theorem arguments_length {tokens rest : List Token} {es : List Expr}
    (h : arguments item tokens = .ok (es, rest)) : rest.length ≤ tokens.length := by
  unfold arguments unexpected at h
  split at h
  · cases h; exact Nat.le_refl _
  · split at h
    · exact Nat.le_of_lt (row_length item h)
    · cases h

end Rows

-- =============================================================== primary

/-- A name, with the arguments of a call if a parenthesis follows it. -/
def named (expression : Rule Expr) (name : String) (tokens : List Token) :
    Except Stop (Reading Expr) :=
  if nextIs '(' tokens then do
    let (es, rest) ← arguments expression tokens.tail
    let rest ← expect ')' rest
    return (.call name es, rest)
  else return (.identifier name, tokens)

/-- What follows an opening parenthesis: a statement and the closing
one. -/
def grouped (expression : Rule Expr) (tokens : List Token) : Except Stop (Reading Expr) := do
  let (es, rest) ← (statement expression).run tokens
  let rest ← expect ')' rest
  return (.group es, rest)

/-- A literal, a name, a call or a group. The kind of the token and what
it carries have to agree. -/
def primaryRun (expression : Rule Expr) : List Token → Except Stop (Reading Expr)
  | [] => unexpected expressionStarts []
  | t :: rest =>
    match t.kind, t.payload with
    | .number, .number x => return (.number x, rest)
    | .string, .text s => return (.text s, rest)
    | .identifier, .text name => named expression name rest
    | .parenthesis, .symbol '(' => grouped expression rest
    | _, _ => unexpected expressionStarts (t :: rest)

theorem named_length {expression : Rule Expr} {name : String} {tokens rest : List Token}
    {e : Expr} (h : named expression name tokens = .ok (e, rest)) :
    rest.length ≤ tokens.length := by
  unfold named at h
  simp only [bind, Except.bind, pure, Except.pure] at h
  split at h
  · split at h
    · cases h
    · next hargs =>
      split at h
      · cases h
      · next hclose =>
        cases h
        have := expect_length hclose
        have := arguments_length expression hargs
        have : tokens.tail.length ≤ tokens.length := by simp
        omega
  · cases h; exact Nat.le_refl _

theorem grouped_length {expression : Rule Expr} {tokens rest : List Token} {e : Expr}
    (h : grouped expression tokens = .ok (e, rest)) : rest.length ≤ tokens.length := by
  unfold grouped at h
  simp only [bind, Except.bind, pure, Except.pure] at h
  split at h
  · cases h
  · next hstatement =>
    split at h
    · cases h
    · next hclose =>
      cases h
      have := expect_length hclose
      have := (statement expression).consumes hstatement
      omega

/-- The rule for primaries. -/
def primary (expression : Rule Expr) : Rule Expr where
  run := primaryRun expression
  consumes := by
    intro tokens e rest h
    unfold primaryRun unexpected at h
    split at h
    · cases h
    · split at h
      · cases h; simp
      · cases h; simp
      · have := named_length h; simp only [List.length_cons]; omega
      · have := grouped_length h; simp only [List.length_cons]; omega
      · cases h

-- ================================================== operators and choices

/-- A product: an operand, and the rest of the product if `*` or `/`
follows. -/
def productRun (operand self : Rule Expr) (tokens : List Token) : Except Stop (Reading Expr) :=
  if startsExpression tokens then do
    let (left, rest) ← operand.run tokens
    match nextOperator? rest with
    | some op =>
      if op.isAdditive then return (left, rest)
      else
        let (right, rest) ← self.run rest.tail
        return (.binary op left right, rest)
    | none =>
      if operandEnds.any (nextIs · rest) then return (left, rest)
      else unexpected afterFactor rest
  else unexpected expressionStarts tokens

/-- A sum: an operand, and the rest of the sum if `+` or `-` follows. -/
def sumRun (operand self : Rule Expr) (tokens : List Token) : Except Stop (Reading Expr) :=
  if startsExpression tokens then do
    let (left, rest) ← operand.run tokens
    match (nextOperator? rest).filter Operator.isAdditive with
    | some op =>
      let (right, rest) ← self.run rest.tail
      return (.binary op left right, rest)
    | none =>
      if operandEnds.any (nextIs · rest) then return (left, rest)
      else unexpected afterSummand rest
  else unexpected expressionStarts tokens

/-- A sum, and the two arms of a choice if a question mark follows. -/
def choiceRun (operand : Rule Expr) (tokens : List Token) : Except Stop (Reading Expr) :=
  if startsExpression tokens then do
    let (condition, rest) ← operand.run tokens
    if nextIs '?' rest then
      let (whenTrue, rest) ← operand.run rest.tail
      let rest ← expect ':' rest
      let (whenFalse, rest) ← operand.run rest
      return (.conditional condition whenTrue whenFalse, rest)
    else return (condition, rest)
  else unexpected expressionStarts tokens

/-- The rule for products. -/
def product (operand self : Rule Expr) : Rule Expr where
  run := productRun operand self
  consumes := by
    intro tokens e rest h
    unfold productRun unexpected at h
    simp only [bind, Except.bind, pure, Except.pure] at h
    split at h
    · split at h
      · cases h
      · next mid hleft =>
        have := operand.consumes hleft
        have : mid.2.tail.length ≤ mid.2.length := by simp
        split at h
        · split at h
          · cases h; assumption
          · split at h
            · cases h
            · next hright => cases h; have := self.consumes hright; omega
        · split at h
          · cases h; assumption
          · cases h
    · cases h

/-- The rule for sums. -/
def sum (operand self : Rule Expr) : Rule Expr where
  run := sumRun operand self
  consumes := by
    intro tokens e rest h
    unfold sumRun unexpected at h
    simp only [bind, Except.bind, pure, Except.pure] at h
    split at h
    · split at h
      · cases h
      · next mid hleft =>
        have := operand.consumes hleft
        have : mid.2.tail.length ≤ mid.2.length := by simp
        split at h
        · split at h
          · cases h
          · next hright => cases h; have := self.consumes hright; omega
        · split at h
          · cases h; assumption
          · cases h
    · cases h

/-- The rule for expressions. -/
def choice (operand : Rule Expr) : Rule Expr where
  run := choiceRun operand
  consumes := by
    intro tokens e rest h
    unfold choiceRun unexpected at h
    simp only [bind, Except.bind, pure, Except.pure] at h
    split at h
    · split at h
      · cases h
      · next mid hcondition =>
        have := operand.consumes hcondition
        have : mid.2.tail.length ≤ mid.2.length := by simp
        split at h
        · split at h
          · cases h
          · next htrue =>
            have := operand.consumes htrue
            split at h
            · cases h
            · next hcolon =>
              have := expect_length hcolon
              split at h
              · cases h
              · next hfalse => cases h; have := operand.consumes hfalse; omega
        · cases h; assumption
    · cases h

-- ========================================================== the grammar

/-- Refuses for want of depth, whatever comes next. -/
def tooDeep : Rule Expr where
  run tokens := .error ⟨.tooDeep, tokens⟩
  consumes h := by cases h

/-- The rule that a computation will give, computed when it is needed. -/
def Rule.delayed {α : Type} (rule : Thunk (Rule α)) : Rule α where
  run tokens := rule.get.run tokens
  consumes h := rule.get.consumes h

/-- The three rules that count against the limit. -/
structure Grammar where
  expression : Rule Expr
  sum : Rule Expr
  product : Rule Expr

/-- The rules with so many levels to go. The level below is formed only
when a token asks for it, so the limit may be any number. -/
def Grammar.ofDepth : Nat → Grammar
  | 0 => ⟨tooDeep, tooDeep, tooDeep⟩
  | depth + 1 =>
    let below : Thunk Grammar := .mk fun _ => ofDepth depth
    let expression := Rule.delayed (below.map Grammar.expression)
    let sum := Rule.delayed (below.map Grammar.sum)
    let product := Rule.delayed (below.map Grammar.product)
    ⟨choice sum, Parser.sum product sum, Parser.product (primary expression) product⟩

theorem Grammar.ofDepth_zero : ofDepth 0 = ⟨tooDeep, tooDeep, tooDeep⟩ := rfl

/-- Delay does not show: a level is made from the rules of the level
below. -/
theorem Grammar.ofDepth_succ (depth : Nat) :
    ofDepth (depth + 1) =
      ⟨choice (ofDepth depth).sum,
        Parser.sum (ofDepth depth).product (ofDepth depth).sum,
        Parser.product (primary (ofDepth depth).expression) (ofDepth depth).product⟩ := rfl

/-- The statements of a program, each ended by a semicolon, as long as
another expression begins. -/
def statements (rule : Rule Statement) (tokens : List Token) :
    Except Stop (Reading (List Statement)) :=
  match _ : rule.run tokens with
  | .error stop => .error stop
  | .ok (s, rest) =>
    match _ : expect ';' rest with
    | .error stop => .error stop
    | .ok rest' =>
      if startsExpression rest' then
        match statements rule rest' with
        | .error stop => .error stop
        | .ok (ss, rest'') => .ok (s :: ss, rest'')
      else .ok ([s], rest')
termination_by tokens.length
decreasing_by
  have := rule.consumes ‹_›
  have := expect_length ‹_›
  omega

/-- The program that all the tokens make up. -/
def program (limit : Nat) (tokens : List Token) : Except Stop Program := do
  match ← statements (statement (Grammar.ofDepth limit).expression) tokens with
  | (ss, []) => return ⟨ss⟩
  | (_, found :: rest) => .error ⟨.trailing found, found :: rest⟩

end Parser

/-- Reads tokens into a program, with `limit` levels of nesting at
most. -/
def Program.ofTokens (limit : Nat) (tokens : List Token) : Except ParseError Program :=
  match Parser.program limit tokens with
  | .ok p => .ok p
  | .error stop => .error (stop.toError limit (Parser.endOffset tokens))

end Reckoner
