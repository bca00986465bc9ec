/-
Derivations of the grammar as trees of their own. A derivation keeps
what the program tree forgets: which rule was used at every step, and
where every sign stands. Its tokens can be read off it, and so can the
program it stands for and how deep it nests, so each question about a
list of tokens becomes one about the derivations that yield it.

The grammar is the one that the parser states, from the loosest binding
to the tightest. Of its six parts the three in the middle count toward
the nesting: an expression, a sum or a product is one level, and a
primary, a statement or a program is none.
-/
import Reckoner.Program.Basic
import Reckoner.Token.Basic

namespace Reckoner

namespace Derivation

-- ========================================================== the rules

mutual

/-- `expression = sum [ '?' sum ':' sum ]`. -/
inductive OfExpression where
  | plain (body : OfSum)
  | choice (condition : OfSum) (question : Span) (whenTrue : OfSum) (colon : Span)
      (whenFalse : OfSum)

/-- `sum = product [ ('+' | '-') sum ]`. -/
inductive OfSum where
  | single (operand : OfProduct)
  | joined (left : OfProduct) (op : Operator) (additive : op.isAdditive = true) (place : Span)
      (right : OfSum)

/-- `product = primary [ ('*' | '/') product ]`. -/
inductive OfProduct where
  | single (operand : OfPrimary)
  | joined (left : OfPrimary) (op : Operator) (multiplicative : op.isAdditive = false)
      (place : Span) (right : OfProduct)

/-- `primary = number | string | identifier [ '(' [ statement ] ')' ] |
'(' statement ')'`. -/
inductive OfPrimary where
  | number (value : Binary64) (place : Span)
  | text (content : String) (place : Span)
  | identifier (name : String) (place : Span)
  | bareCall (name : String) (place opening closing : Span)
  | call (name : String) (place opening : Span) (arguments : OfStatement) (closing : Span)
  | group (opening : Span) (body : OfStatement) (closing : Span)

/-- `statement = expression { ',' expression }`. -/
inductive OfStatement where
  | last (e : OfExpression)
  | more (e : OfExpression) (comma : Span) (rest : OfStatement)

end

/-- `program = statement ';' { statement ';' }`. -/
inductive OfProgram where
  | last (s : OfStatement) (semicolon : Span)
  | more (s : OfStatement) (semicolon : Span) (rest : OfProgram)

-- =============================================== what a derivation yields

mutual

/-- The tokens of an expression, in order. -/
def OfExpression.yield : OfExpression → List Token
  | .plain body => body.yield
  | .choice condition question whenTrue colon whenFalse =>
    condition.yield ++ ⟨.questionMark, .symbol '?', question⟩ ::
      (whenTrue.yield ++ ⟨.colon, .symbol ':', colon⟩ :: whenFalse.yield)

def OfSum.yield : OfSum → List Token
  | .single operand => operand.yield
  | .joined left op _ place right =>
    left.yield ++ ⟨.operator, .symbol op.symbol, place⟩ :: right.yield

def OfProduct.yield : OfProduct → List Token
  | .single operand => operand.yield
  | .joined left op _ place right =>
    left.yield ++ ⟨.operator, .symbol op.symbol, place⟩ :: right.yield

def OfPrimary.yield : OfPrimary → List Token
  | .number value place => [⟨.number, .number value, place⟩]
  | .text content place => [⟨.string, .text content, place⟩]
  | .identifier name place => [⟨.identifier, .text name, place⟩]
  | .bareCall name place opening closing =>
    [⟨.identifier, .text name, place⟩, ⟨.parenthesis, .symbol '(', opening⟩,
      ⟨.parenthesis, .symbol ')', closing⟩]
  | .call name place opening arguments closing =>
    ⟨.identifier, .text name, place⟩ :: ⟨.parenthesis, .symbol '(', opening⟩ ::
      (arguments.yield ++ [⟨.parenthesis, .symbol ')', closing⟩])
  | .group opening body closing =>
    ⟨.parenthesis, .symbol '(', opening⟩ ::
      (body.yield ++ [⟨.parenthesis, .symbol ')', closing⟩])

/-- The tokens of a statement, in order. -/
def OfStatement.yield : OfStatement → List Token
  | .last e => e.yield
  | .more e comma rest => e.yield ++ ⟨.comma, .symbol ',', comma⟩ :: rest.yield

end

/-- The tokens of a program, in order. -/
def OfProgram.yield : OfProgram → List Token
  | .last s semicolon => s.yield ++ [⟨.semicolon, .symbol ';', semicolon⟩]
  | .more s semicolon rest =>
    s.yield ++ ⟨.semicolon, .symbol ';', semicolon⟩ :: rest.yield

-- ========================================== the tree a derivation builds

mutual

/-- The tree of an expression: the inner nodes of the grammar are left
out. -/
def OfExpression.tree : OfExpression → Expr
  | .plain body => body.tree
  | .choice condition _ whenTrue _ whenFalse =>
    .conditional condition.tree whenTrue.tree whenFalse.tree

/-- The tree of a sum, which groups to the right. -/
def OfSum.tree : OfSum → Expr
  | .single operand => operand.tree
  | .joined left op _ _ right => .binary op left.tree right.tree

/-- The tree of a product, which groups to the right. -/
def OfProduct.tree : OfProduct → Expr
  | .single operand => operand.tree
  | .joined left op _ _ right => .binary op left.tree right.tree

def OfPrimary.tree : OfPrimary → Expr
  | .number value _ => .number value
  | .text content _ => .text content
  | .identifier name _ => .identifier name
  | .bareCall name _ _ _ => .call name []
  | .call name _ _ arguments _ => .call name arguments.trees
  | .group _ body _ => .group body.trees

/-- The expressions of a statement. -/
def OfStatement.trees : OfStatement → Statement
  | .last e => [e.tree]
  | .more e _ rest => e.tree :: rest.trees

end

/-- The statements of a program. -/
def OfProgram.statements : OfProgram → List Statement
  | .last s _ => [s.trees]
  | .more s _ rest => s.trees :: rest.statements

/-- The program that a derivation stands for. -/
def OfProgram.tree (d : OfProgram) : Program := ⟨d.statements⟩

-- ================================================= how deep it nests

mutual

/-- The most levels on a way down from an expression, itself one. -/
def OfExpression.depth : OfExpression → Nat
  | .plain body => body.depth + 1
  | .choice condition _ whenTrue _ whenFalse =>
    max condition.depth (max whenTrue.depth whenFalse.depth) + 1

def OfSum.depth : OfSum → Nat
  | .single operand => operand.depth + 1
  | .joined left _ _ _ right => max left.depth right.depth + 1

def OfProduct.depth : OfProduct → Nat
  | .single operand => operand.depth + 1
  | .joined left _ _ _ right => max left.depth right.depth + 1

/-- The most levels on a way down from a primary, which is none itself. -/
def OfPrimary.depth : OfPrimary → Nat
  | .number _ _ | .text _ _ | .identifier _ _ | .bareCall _ _ _ _ => 0
  | .call _ _ _ arguments _ => arguments.depth
  | .group _ body _ => body.depth

def OfStatement.depth : OfStatement → Nat
  | .last e => e.depth
  | .more e _ rest => max e.depth rest.depth

end

def OfProgram.depth : OfProgram → Nat
  | .last s _ => s.depth
  | .more s _ rest => max s.depth rest.depth

end Derivation

end Reckoner
