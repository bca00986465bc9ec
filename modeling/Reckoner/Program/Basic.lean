/-
Programs as trees. A program is a row of statements, a statement a row of
expressions, and parentheses are kept as a node of their own, since what
they enclose is a whole statement.
-/
import Reckoner.Binary64.Basic
import Reckoner.Operator

namespace Reckoner

/-- An expression. -/
inductive Expr where
  /-- A number; trees made by hand may hold any. -/
  | number (value : Binary64)
  /-- A text. -/
  | text (content : String)
  /-- The value bound to a name. -/
  | identifier (name : String)
  /-- Two operands joined by an operator. -/
  | binary (operator : Operator) (left right : Expr)
  /-- A choice by the truth of a condition. -/
  | conditional (condition whenTrue whenFalse : Expr)
  /-- A call of the function bound to a name. -/
  | call (name : String) (arguments : List Expr)
  /-- A statement between parentheses. -/
  | group (statement : List Expr)
deriving Inhabited

/-- Expressions joined by commas; the last gives the value. -/
abbrev Statement := List Expr

/-- Statements, each of which a semicolon ends. -/
structure Program where
  statements : List Statement
deriving Inhabited

-- ==================================================== sameness of trees

mutual

/-- Are two trees the same, numbers being compared as numbers? A tree
with a NaN in it is not the same as any. -/
def Expr.same : Expr → Expr → Bool
  | .number x, .number y => x.equals y
  | .text s, .text t => s == t
  | .identifier m, .identifier n => m == n
  | .binary o a b, .binary p c d => o == p && a.same c && b.same d
  | .conditional a b c, .conditional d e f => a.same d && b.same e && c.same f
  | .call m as, .call n bs => m == n && Expr.sameAll as bs
  | .group as, .group bs => Expr.sameAll as bs
  | _, _ => false

/-- Are two rows of trees the same, one by one? -/
def Expr.sameAll : List Expr → List Expr → Bool
  | [], [] => true
  | a :: as, b :: bs => a.same b && Expr.sameAll as bs
  | _, _ => false

end

namespace Program

/-- Are two programs the same, statement by statement? -/
def same (p q : Program) : Bool :=
  p.statements.length == q.statements.length &&
    (p.statements.zip q.statements).all fun (s, t) => Expr.sameAll s t

end Program

end Reckoner
