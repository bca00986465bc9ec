/-
Arms of the rules that are left open. Each rule has an answer for every
list of tokens, and three of these answers are not called for: a primary
without a token, a primary that begins with none of the tokens that there
are for it, and an operand of a sum with neither an operator nor an end
behind it. The rules are written once more here with these three answers
left open; with the answers that the rules give they are the rules.

Open answers are refusals, so what is read with them is read by the rules.
-/
import Reckoner.Proofs.Grammar.Next

namespace Reckoner

namespace Parser

/-- Answers for the three arms in question. -/
structure Arms where
  /-- Where a primary is asked for, no token is left. -/
  noToken : Stop
  /-- The first token of a primary is none that one begins with. -/
  mismatched : List Token → Stop
  /-- Neither an operator nor an end is behind an operand of a sum. -/
  behindOperand : List Token → Stop

namespace Arms

/-- The answers that the rules give. -/
def own : Arms where
  noToken := ⟨.unexpected expressionStarts, []⟩
  mismatched tokens := ⟨.unexpected expressionStarts, tokens⟩
  behindOperand tokens := ⟨.unexpected afterSummand, tokens⟩

variable (arms : Arms)

/-- A literal, a name, a call or a group, with two answers left open. -/
def primaryRun (expression : Rule Expr) : List Token → Except Stop (Reading Expr)
  | [] => .error arms.noToken
  | t :: rest =>
    match t.kind, t.payload with
    | .number, .number x => return (.number x, rest)
    | .string, .text s => return (.text s, rest)
    | .identifier, .text name => named expression name rest
    | .parenthesis, .symbol '(' => grouped expression rest
    | _, _ => .error (arms.mismatched (t :: rest))

/-- A sum, with the answer behind its operand left open. -/
def sumRun (operand self : Rule Expr) (tokens : List Token) : Except Stop (Reading Expr) :=
  if startsExpression tokens then do
    let (left, rest) ← operand.run tokens
    match (nextOperator? rest).filter Operator.isAdditive with
    | some op =>
      let (right, rest) ← self.run rest.tail
      return (.binary op left right, rest)
    | none =>
      if operandEnds.any (nextIs · rest) then return (left, rest)
      else .error (arms.behindOperand rest)
  else unexpected expressionStarts tokens

-- ============================================== the choice by what is next

/-- What the rule for primaries does where this is the word of the next
token. -/
def primaryBy (expression : Rule Expr) : Option Word → Reader Expr
  | none, _ => .error arms.noToken
  | some (.number, .number x), tokens => .ok (.number x, tokens.tail)
  | some (.string, .text s), tokens => .ok (.text s, tokens.tail)
  | some (.identifier, .text name), tokens => named expression name tokens.tail
  | some (.parenthesis, .symbol '('), tokens => grouped expression tokens.tail
  | some _, tokens => .error (arms.mismatched tokens)

theorem primaryRun_eq (expression : Rule Expr) (tokens : List Token) :
    arms.primaryRun expression tokens
      = arms.primaryBy expression (tokens.head?.map Token.word) tokens := by
  cases tokens with
  | nil => rfl
  | cons t rest =>
    obtain ⟨kind, payload, place⟩ := t
    show arms.primaryRun expression _ = arms.primaryBy expression (some (kind, payload)) _
    cases kind <;> cases payload
    case parenthesis.symbol sign =>
      by_cases hopen : sign = '('
      · subst hopen
        rfl
      · simp [primaryRun, primaryBy, hopen]
    all_goals rfl

/-- A token that does not agree with itself begins no primary. -/
theorem primaryBy_disagreeing {t : Token} (h : t.agrees = false) (expression : Rule Expr)
    (tokens : List Token) :
    arms.primaryBy expression (some t.word) tokens = .error (arms.mismatched tokens) := by
  obtain ⟨kind, payload, place⟩ := t
  show arms.primaryBy expression (some (kind, payload)) tokens = _
  cases kind <;> cases payload
  case parenthesis.symbol sign =>
    have hopen : sign ≠ '(' := by
      rintro rfl
      cases h
    simp [primaryBy, hopen]
  case number.number | string.text | identifier.text => cases h
  all_goals rfl

/-- What the rule for sums does behind an operand. -/
def sumRest (self : Rule Expr) (left : Expr) (next : Option Operator) (rest : List Token) :
    Except Stop (Reading Expr) :=
  match next.filter Operator.isAdditive with
  | some op => do
    let (right, rest) ← self.run rest.tail
    return (.binary op left right, rest)
  | none =>
    if operandEnds.any (nextIs · rest) then return (left, rest)
    else .error (arms.behindOperand rest)

variable {arms} {expression operand self : Rule Expr} {tokens : List Token} {reading : Reading Expr}

/-- With their own answers the rules are the rules. -/
theorem own_primaryRun (expression : Rule Expr) :
    own.primaryRun expression = Parser.primaryRun expression := by
  funext tokens
  cases tokens with
  | nil => rfl
  | cons t rest =>
    obtain ⟨kind, payload, place⟩ := t
    cases kind <;> cases payload
    case parenthesis.symbol sign =>
      by_cases hopen : sign = '('
      · subst hopen
        rfl
      · simp [primaryRun, Parser.primaryRun, hopen, unexpected, own]
    all_goals rfl

/-- A primary that is read is read by the rules. -/
theorem primaryRun_ok (h : arms.primaryRun expression tokens = .ok reading) :
    Parser.primaryRun expression tokens = .ok reading := by
  rw [← own_primaryRun]
  rw [primaryRun_eq] at h ⊢
  generalize tokens.head?.map Token.word = word at h ⊢
  unfold primaryBy at h ⊢
  split at h
  case h_1 | h_6 => cases h
  all_goals exact h

/-- A sum that is read is read by the rules. -/
theorem sumRun_ok (h : arms.sumRun operand self tokens = .ok reading) :
    Parser.sumRun operand self tokens = .ok reading := by
  show own.sumRun operand self tokens = _
  unfold sumRun at h ⊢
  split at h
  · next hstarts =>
    obtain ⟨⟨left, rest⟩, hleft, hbehind⟩ := bind_eq_ok h
    rw [if_pos hstarts, hleft]
    show own.sumRest self left (nextOperator? rest) rest = _
    change arms.sumRest self left (nextOperator? rest) rest = _ at hbehind
    unfold sumRest at hbehind ⊢
    split at hbehind
    · exact hbehind
    · split at hbehind
      · next hends => exact (if_pos hends).trans hbehind
      · cases hbehind
  · cases h

-- ============================================================ the levels

variable (arms)

/-- The rule for primaries. -/
def primary (expression : Rule Expr) : Rule Expr where
  run := arms.primaryRun expression
  consumes h := (Parser.primary expression).consumes (primaryRun_ok h)

/-- The rule for sums. -/
def sum (operand self : Rule Expr) : Rule Expr where
  run := arms.sumRun operand self
  consumes h := (Parser.sum operand self).consumes (sumRun_ok h)

/-- The rules with so many levels to go. -/
def grammar : Nat → Grammar
  | 0 => ⟨tooDeep, tooDeep, tooDeep⟩
  | depth + 1 =>
    ⟨choice (grammar depth).sum, arms.sum (grammar depth).product (grammar depth).sum,
      product (arms.primary (grammar depth).expression) (grammar depth).product⟩

/-- The program that all the tokens make up. -/
def program (limit : Nat) (tokens : List Token) : Except Stop Program := do
  match ← statements (statement (arms.grammar limit).expression) tokens with
  | (ss, []) => return ⟨ss⟩
  | (_, found :: rest) => .error ⟨.trailing found, found :: rest⟩

theorem own_primary (expression : Rule Expr) :
    own.primary expression = Parser.primary expression := by
  unfold primary Parser.primary
  simp only [own_primaryRun]

/-- So are the levels. -/
theorem own_grammar (n : Nat) : own.grammar n = Grammar.ofDepth n := by
  induction n with
  | zero => exact Grammar.ofDepth_zero.symm
  | succ n ih =>
    rw [grammar, Grammar.ofDepth_succ, ih, own_primary]
    rfl

/-- The tokens are such that no mismatch among them can be told from one
that the rules refuse: each agrees with itself, or it has their answer. -/
def Spares (tokens : List Token) : Prop :=
  ∀ t ∈ tokens, t.agrees = true ∨
    ∀ rest, arms.mismatched (t :: rest) = own.mismatched (t :: rest)

theorem Spares.right {arms : Arms} {front rest : List Token} (h : arms.Spares (front ++ rest)) :
    arms.Spares rest :=
  fun t ht => h t (List.mem_append_right _ ht)

theorem own_spares (tokens : List Token) : own.Spares tokens := fun _ _ => .inr fun _ => rfl

end Arms

end Parser

end Reckoner
