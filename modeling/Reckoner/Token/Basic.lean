/-
Tokens: the words and signs of a source text, each with what it carries
and where it stands. Which payload a kind carries is a fact about the
tokens that a text is split into, not about tokens as such; a list of
tokens put together by hand may pair them freely.
-/
import Reckoner.Binary64.Layout
import Reckoner.Operator
import Reckoner.Span
import Reckoner.Text.Quoted

namespace Reckoner

/-- The kind of a token. -/
inductive TokenKind where
  | number
  | string
  | identifier
  | operator
  | parenthesis
  | colon
  | comma
  | semicolon
  | questionMark
deriving DecidableEq, Inhabited

namespace TokenKind

/-- The word for a kind in messages. -/
def name : TokenKind → String
  | number => "number"
  | string => "string"
  | identifier => "identifier"
  | operator => "operator"
  | parenthesis => "parenthesis"
  | colon => "colon"
  | comma => "comma"
  | semicolon => "semicolon"
  | questionMark => "question mark"

/-- The kind of the one-character token that a character makes. -/
def ofSymbol? (c : Char) : Option TokenKind :=
  if c = '+' ∨ c = '-' ∨ c = '*' ∨ c = '/' then some operator
  else if c = '(' ∨ c = ')' then some parenthesis
  else if c = ':' then some colon
  else if c = ',' then some comma
  else if c = ';' then some semicolon
  else if c = '?' then some questionMark
  else none

theorem ofSymbol?_symbol (op : Operator) : ofSymbol? op.symbol = some operator := by
  cases op <;> rfl

end TokenKind

/-- What a token carries. -/
inductive Payload where
  /-- The number that a literal denotes. -/
  | number (value : Binary64)
  /-- What stands between the quotes of a string, or a name. -/
  | text (content : String)
  /-- The sign itself. -/
  | symbol (sign : Char)
deriving DecidableEq, Inhabited

/-- A token and its place in the source text. -/
structure Token where
  kind : TokenKind
  payload : Payload
  span : Span
deriving DecidableEq, Inhabited

namespace Token

/-- Does the token carry this sign, whatever its kind? -/
def carries (t : Token) (sign : Char) : Bool := t.payload == .symbol sign

/-- The operator that a token is; only a token of that kind is one. -/
def operator? (t : Token) : Option Operator :=
  match t.kind, t.payload with
  | .operator, .symbol sign => Operator.ofSymbol? sign
  | _, _ => none

/-- A token as messages show it. -/
def display (t : Token) : String :=
  match t.payload with
  | .number n => "number `" ++ n.plainText ++ "`"
  | .text s =>
    if t.kind = .string then "string " ++ Text.quoted s else "identifier `" ++ s ++ "`"
  | .symbol sign => "`" ++ sign.toString ++ "`"

end Token

end Reckoner
