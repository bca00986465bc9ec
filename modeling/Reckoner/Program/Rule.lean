/-
What the rules of the grammar are made of: looking at the next token,
insisting on one, and refusing it.

A rule that cannot go on says what it met and what tokens were left. The
error for the reader, with its found token and its place in the source,
is made from that once, at the end. A rule also carries the fact that it
consumes a token whenever it succeeds, which is what ends the loops over
commas and semicolons.
-/
import Reckoner.Program.Fault

namespace Reckoner.Parser

/-- What a rule met when it could not go on. -/
inductive Obstacle where
  | unexpected (expected : List Expected)
  | trailing (found : Token)
  | tooDeep

/-- What a rule met, and the tokens that were left then. -/
structure Stop where
  obstacle : Obstacle
  remaining : List Token

/-- The end of the last token, zero if there is none. -/
def endOffset (tokens : List Token) : Nat :=
  match tokens.getLast? with
  | some t => t.span.stop
  | none => 0

/-- The error of a reading that stopped. It is placed at the next token,
or just behind the last one if none is left. -/
def Stop.toError (limit endOffset : Nat) (stop : Stop) : ParseError :=
  let fault := match stop.obstacle with
    | .unexpected expected => .unexpectedToken expected stop.remaining.head?
    | .trailing found => .unexpectedTrailingToken found
    | .tooDeep => .maxDepthExceeded limit
  let span := match stop.remaining with
    | t :: _ => t.span
    | [] => .point endOffset
  ⟨fault, span⟩

-- =============================================================== tokens

/-- Does the next token carry this sign? -/
def nextIs (sign : Char) (tokens : List Token) : Bool :=
  match tokens with
  | t :: _ => t.carries sign
  | [] => false

/-- The operator that the next token is. -/
def nextOperator? (tokens : List Token) : Option Operator :=
  tokens.head?.bind Token.operator?

/-- Can the next token begin an expression? -/
def startsExpression (tokens : List Token) : Bool :=
  match tokens with
  | t :: _ =>
    t.kind == .number || t.kind == .string || t.kind == .identifier || t.carries '('
  | [] => false

/-- What can begin an expression. -/
def expressionStarts : List Expected :=
  [.kind .number, .kind .string, .kind .identifier, .symbol '(']

/-- What can begin the arguments of a call. -/
def argumentStarts : List Expected := expressionStarts ++ [.symbol ')']

/-- The signs that can follow an operand once no operator does. -/
def operandEnds : List Char := [';', '?', ':', ')', ',']

/-- What can follow an operand of a sum. -/
def afterSummand : List Expected := (['+', '-'] ++ operandEnds).map .symbol

/-- What can follow an operand of a product. -/
def afterFactor : List Expected := (['*', '/', '+', '-'] ++ operandEnds).map .symbol

/-- What a rule read, and the tokens after that. -/
abbrev Reading (α : Type) := α × List Token

/-- Refuses the next token. -/
def unexpected {α : Type} (expected : List Expected) (tokens : List Token) : Except Stop α :=
  .error ⟨.unexpected expected, tokens⟩

/-- The tokens after the sign that has to come next. -/
def expect (sign : Char) (tokens : List Token) : Except Stop (List Token) :=
  if nextIs sign tokens then .ok tokens.tail else unexpected [.symbol sign] tokens

/-- A reader of something that is at least one token long. -/
structure Rule (α : Type) where
  run : List Token → Except Stop (Reading α)
  consumes : ∀ {tokens : List Token} {a : α} {rest : List Token},
    run tokens = .ok (a, rest) → rest.length < tokens.length

theorem expect_length {sign : Char} {tokens rest : List Token}
    (h : expect sign tokens = .ok rest) : rest.length < tokens.length := by
  unfold expect unexpected at h
  split at h
  · cases tokens with
    | nil => simp_all [nextIs]
    | cons t ts => cases h; simp
  · cases h

end Reckoner.Parser
