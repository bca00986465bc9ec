/-
Programs written as source text again. Every operator and every choice
gets its own parentheses, so no rule of precedence is called upon when
the text is read back.

Literals are unsigned decimals and strings without escapes, which leaves
values that have no literal. Those are written as an expression with the
same value: a lone point for NaN, a division for infinity, a subtraction
or a product for a minus sign, and a sum of strings for a text that holds
both kinds of quote.
-/
import Reckoner.Binary64.Layout
import Reckoner.Program.Basic

namespace Reckoner

namespace Printer

-- ============================================================ numbers

/-- Source text worth a magnitude. -/
def magnitude (m : Magnitude) : String :=
  if m.isInfinite then "(1 / 0)" else String.ofList m.shortest.plain

/-- Source text worth a number. -/
def number : Binary64 → String
  | .nan => "."
  | .signed false m => magnitude m
  | .signed true m => if m.isZero then "(0 * (0 - 1))" else "(0 - " ++ magnitude m ++ ")"

-- ============================================================== texts

/-- Puts a character before the first of several chunks. -/
def consFirst (c : Char) : List (List Char) → List (List Char)
  | [] => [[c]]
  | chunk :: chunks => (c :: chunk) :: chunks

/-- A text cut into as few chunks as leave each with one kind of quote at
most. `seen` is the quote that the chunk under way holds already; it is
closed before a quote of the other kind. -/
def chunksFrom (seen : Option Char) : List Char → List (List Char)
  | [] => [[]]
  | c :: cs =>
    if c = '\x27' ∨ c = '\x22' then
      if seen = none ∨ seen = some c then consFirst c (chunksFrom (some c) cs)
      else [] :: consFirst c (chunksFrom (some c) cs)
    else consFirst c (chunksFrom seen cs)

/-- A text cut before each quote that cannot stand with those before it. -/
def quoteChunks (cs : List Char) : List (List Char) := chunksFrom none cs

/-- A literal for a chunk, in the quotes that it does not hold. -/
def chunk (cs : List Char) : String :=
  if '\x27' ∈ cs then "\"" ++ String.ofList cs ++ "\"" else "'" ++ String.ofList cs ++ "'"

/-- Source text worth a text. -/
def text (s : String) : String :=
  match quoteChunks s.toList with
  | [only] => chunk only
  | chunks => "(" ++ " + ".intercalate (chunks.map chunk) ++ ")"

end Printer

-- ======================================================= whole programs

mutual

/-- Source text of an expression. -/
def Expr.print : Expr → String
  | .number x => Printer.number x
  | .text s => Printer.text s
  | .identifier name => name
  | .binary op left right =>
    "(" ++ left.print ++ " " ++ op.symbol.toString ++ " " ++ right.print ++ ")"
  | .conditional condition whenTrue whenFalse =>
    "(" ++ condition.print ++ " ? " ++ whenTrue.print ++ " : " ++ whenFalse.print ++ ")"
  | .call name arguments => name ++ "(" ++ Expr.printAll arguments ++ ")"
  | .group statement => "(" ++ Expr.printAll statement ++ ")"

/-- Source text of expressions joined by commas. -/
def Expr.printAll : List Expr → String
  | [] => ""
  | [e] => e.print
  | e :: rest => e.print ++ ", " ++ Expr.printAll rest

end

/-- Source text of a program, its statements joined by spaces. -/
def Program.print (p : Program) : String :=
  " ".intercalate (p.statements.map fun statement => Expr.printAll statement ++ ";")

end Reckoner
