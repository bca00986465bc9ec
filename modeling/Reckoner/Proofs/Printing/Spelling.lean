/-
What a printed tree is read as. The printer puts every operator and every
choice in parentheses, so a printed tree is a primary of the grammar, and
its derivation follows the tree: each node becomes the rule that it was
printed by. Those derivations are the spellings of this file.

That the printed text has the words of the spelling is shown by following
the printer. The text of every node ends behind a token that the next
character cannot join, so the pieces are read one by one. Names and rows
are printed as they are, and only those of printable trees are read back.
-/
import Reckoner.Program.Printer
import Reckoner.Proofs.Grammar.Derivation
import Reckoner.Proofs.Number.Literal
import Reckoner.Proofs.Printing.Chunks

namespace Reckoner

open Reckoner.Derivation Lexer

-- ==================================================== printable trees

mutual

/-- Are the names of the tree names, and its groups not empty? Numbers and
texts may be any. -/
def Expr.printable : Expr → Bool
  | .number _ | .text _ => true
  | .identifier name => isName name
  | .binary _ left right => left.printable && right.printable
  | .conditional condition whenTrue whenFalse =>
    condition.printable && whenTrue.printable && whenFalse.printable
  | .call name arguments => isName name && Expr.allPrintable arguments
  | .group statement => !statement.isEmpty && Expr.allPrintable statement

/-- Are all trees of a row printable? -/
def Expr.allPrintable : List Expr → Bool
  | [] => true
  | e :: rest => e.printable && Expr.allPrintable rest

end

/-- Are there statements, none of them empty, and all of them printable? -/
def Program.printable (p : Program) : Bool :=
  !p.statements.isEmpty && p.statements.all fun s => !s.isEmpty && Expr.allPrintable s

-- ========================================================== spellings

/-- A primary as a sum without operators. -/
def Derivation.OfPrimary.sum (p : OfPrimary) : OfSum := .single (.single p)

/-- A primary as an expression without operators. -/
def Derivation.OfPrimary.expression (p : OfPrimary) : OfExpression := .plain p.sum

/-- The ranks of the two operators that spellings are made with. -/
theorem Operator.isAdditive_add : Operator.add.isAdditive = true := rfl

theorem Operator.isAdditive_mul : Operator.mul.isAdditive = false := rfl

namespace Spelling

/-- An expression between parentheses. -/
def enclosed (e : OfExpression) : OfPrimary := .group default (.last e) default

/-- An operation between parentheses, at the rank that its operator has. -/
def operation (op : Operator) (left right : OfPrimary) : OfPrimary :=
  enclosed (.plain (if h : op.isAdditive = true
    then .joined (.single left) op h default right.sum
    else .single (.joined left op (Bool.eq_false_iff.2 h) default (.single right))))

/-- A choice between parentheses. Its three parts are sums, as the grammar
has it. -/
def choice (condition whenTrue whenFalse : OfPrimary) : OfPrimary :=
  enclosed (.choice condition.sum default whenTrue.sum default whenFalse.sum)

def zero : OfPrimary := .number .zero default

def one : OfPrimary := .number .one default

/-- A number without a sign. Infinity has no literal and is spelled as a
quotient. -/
def magnitude (m : Magnitude) : OfPrimary :=
  if m.isInfinite then operation .div one zero else .number (.signed false m) default

/-- A number. No literal has a minus sign, so it is spelled as a difference
from zero; zero with a minus sign is a product, since a difference would
lose it. -/
def number : Binary64 → OfPrimary
  | .nan => .number .nan default
  | .signed false m => magnitude m
  | .signed true m =>
    if m.isZero then operation .mul zero (operation .sub zero one)
    else operation .sub zero (magnitude m)

/-- A text that some kind of quote can enclose. -/
def chunk (cs : List Char) : OfPrimary := .text (String.ofList cs) default

/-- How chunks are put together again. -/
def chunkSum : List (List Char) → OfSum
  | [] => (chunk []).sum
  | [cs] => (chunk cs).sum
  | cs :: chunks =>
    .joined (.single (chunk cs)) .add Operator.isAdditive_add default (chunkSum chunks)

/-- A text, as one literal or as a sum of its chunks between parentheses. -/
def text (s : String) : OfPrimary :=
  match Printer.quoteChunks s.toList with
  | [only] => chunk only
  | chunks => enclosed (.plain (chunkSum chunks))

end Spelling

mutual

/-- How an expression is spelled. -/
def Expr.spelling : Expr → OfPrimary
  | .number x => Spelling.number x
  | .text s => Spelling.text s
  | .identifier name => .identifier name default
  | .binary op left right => Spelling.operation op left.spelling right.spelling
  | .conditional condition whenTrue whenFalse =>
    Spelling.choice condition.spelling whenTrue.spelling whenFalse.spelling
  | .call name arguments =>
    if arguments.isEmpty then .bareCall name default default default
    else .call name default default (Expr.spellingAll arguments) default
  | .group statement => .group default (Expr.spellingAll statement) default

/-- How a row of expressions is spelled; an empty one is not. -/
def Expr.spellingAll : List Expr → OfStatement
  | [] => .last (Spelling.chunk []).expression
  | [e] => .last e.spelling.expression
  | e :: rest => .more e.spelling.expression default (Expr.spellingAll rest)

end

/-- How statements are spelled; no statements are not. -/
def Program.spellingOf : List Statement → OfProgram
  | [] => .last (Expr.spellingAll []) default
  | [s] => .last (Expr.spellingAll s) default
  | s :: rest => .more (Expr.spellingAll s) default (Program.spellingOf rest)

/-- How a program is spelled. -/
def Program.spelling (p : Program) : OfProgram := Program.spellingOf p.statements

-- ================================================ what is read from pieces

/-- A lone point is read as no number. -/
theorem Lexer.Reads.nan : Reads ['.'] [(.number, .number .nan)] := by
  have h : Binary64.ofLiteral false ['.'] = .nan := by decide +kernel
  rw [← h]
  exact .numeral (by decide) (by decide)

/-- The plain text of a magnitude is read as the number. -/
theorem Lexer.Reads.magnitude (m : Magnitude) :
    Reads m.shortest.plain [(.number, .number (.signed false m))] := by
  obtain ⟨whole, places, hform, -⟩ := m.shortest.plain_pointed
  obtain ⟨c, rest, hplain, hdigit⟩ := hform.front
  have hnumeral := hform.numeral_eq
  rw [← Binary64.ofLiteral_plain, hplain]
  rw [hplain] at hnumeral
  exact .numeral (by rw [startsNumber, hdigit]; rfl) hnumeral

/-- The text is read as these tokens, their places aside. -/
abbrev Spells (cs : List Char) (tokens : List Token) : Prop := Reads cs (tokens.map Token.word)

namespace Spelling

variable {cs ds es : List Char}

/-- Parentheses around a text are read as parentheses around what it
spells. -/
theorem spells_enclosed {e : OfExpression} (h : Spells cs e.yield) :
    Spells ('(' :: (cs ++ [')'])) (enclosed e).yield := by
  have hclosed := h.append_parts (c := ')') (by decide) (Reads.sign rfl)
  simpa [enclosed, Spells, OfPrimary.yield, OfStatement.yield, Token.word] using
    hclosed.cons_sign (c := '(') rfl

/-- An operation as it is printed, with blanks around the operator. -/
theorem spells_operation (op : Operator) {left right : OfPrimary} (hleft : Spells cs left.yield)
    (hright : Spells ds right.yield) :
    Spells ('(' :: (cs ++ ' ' :: op.symbol :: ' ' :: ds ++ [')']))
      (operation op left right).yield := by
  have hjoined := hleft.append_parts (c := ' ') (by decide)
    (hright.cons_space.cons_sign (TokenKind.ofSymbol?_symbol op)).cons_space
  refine spells_enclosed ?_
  split
  · simpa [Spells, OfExpression.yield, OfSum.yield, OfProduct.yield, OfPrimary.sum, Token.word]
      using hjoined
  · simpa [Spells, OfExpression.yield, OfSum.yield, OfProduct.yield, Token.word] using hjoined

/-- A choice as it is printed, with blanks around both signs. -/
theorem spells_choice {condition whenTrue whenFalse : OfPrimary}
    (hcondition : Spells cs condition.yield) (htrue : Spells ds whenTrue.yield)
    (hfalse : Spells es whenFalse.yield) :
    Spells ('(' :: (cs ++ ' ' :: '?' :: ' ' :: (ds ++ ' ' :: ':' :: ' ' :: es) ++ [')']))
      (choice condition whenTrue whenFalse).yield := by
  have harms := htrue.append_parts (c := ' ') (by decide)
    (hfalse.cons_space.cons_sign (c := ':') rfl).cons_space
  have hall := hcondition.append_parts (c := ' ') (by decide)
    (harms.cons_space.cons_sign (c := '?') rfl).cons_space
  refine spells_enclosed ?_
  simpa [Spells, OfExpression.yield, OfSum.yield, OfProduct.yield, OfPrimary.sum, Token.word]
    using hall

-- ============================================================= literals

theorem spells_zero : Spells ['0'] zero.yield := by
  have h : Binary64.ofLiteral false ['0'] = .zero := by decide +kernel
  rw [zero, OfPrimary.yield, ← h]
  exact Reads.numeral (by decide) (by decide)

theorem spells_one : Spells ['1'] one.yield := by
  have h : Binary64.ofLiteral false ['1'] = .one := by decide +kernel
  rw [one, OfPrimary.yield, ← h]
  exact Reads.numeral (by decide) (by decide)

/-- A number without a sign, as it is printed. -/
theorem spells_magnitude (m : Magnitude) :
    Spells (Printer.magnitude m).toList (magnitude m).yield := by
  unfold Printer.magnitude magnitude
  split
  · have htext : "(1 / 0)".toList = '(' :: (['1'] ++ [' ', '/', ' ', '0'] ++ [')']) := by decide
    rw [htext]
    exact spells_operation .div spells_one spells_zero
  · rw [String.toList_ofList]
    exact .magnitude m

/-- A number as it is printed, whatever it is. -/
theorem spells_number (x : Binary64) : Spells (Printer.number x).toList (number x).yield := by
  match x with
  | .nan => exact Reads.nan
  | .signed false m => exact spells_magnitude m
  | .signed true m =>
    rw [Printer.number, number]
    split
    · have htext : "(0 * (0 - 1))".toList = '(' :: (['0'] ++ ' ' :: '*' :: ' ' ::
          '(' :: (['0'] ++ [' ', '-', ' ', '1'] ++ [')']) ++ [')']) := by decide
      rw [htext]
      exact spells_operation .mul spells_zero (spells_operation .sub spells_zero spells_one)
    · simpa [String.toList_append, Operator.symbol] using
        spells_operation .sub spells_zero (spells_magnitude m)

/-- The literals of chunks, joined by pluses, are read as their sum. -/
theorem spells_chunkSum {chunks : List (List Char)} (hnonempty : chunks ≠ [])
    (h : ∀ cs ∈ chunks, ∃ quote, Printer.Quotes quote cs) :
    Spells (" + ".intercalate (chunks.map Printer.chunk)).toList (chunkSum chunks).yield := by
  induction chunks with
  | nil => exact absurd rfl hnonempty
  | cons cs chunks ih =>
    obtain ⟨quote, hquote⟩ := h cs List.mem_cons_self
    have hfirst := Printer.reads_chunk hquote
    cases chunks with
    | nil =>
      rw [List.map_singleton, String.intercalate_singleton]
      exact hfirst
    | cons cs' chunks =>
      have hrest := ih (List.cons_ne_nil _ _) fun cs hcs => h cs (List.mem_cons_of_mem _ hcs)
      have hjoined := hfirst.append_parts (c := ' ') (by decide)
        (hrest.cons_space.cons_sign (c := '+') rfl).cons_space
      have hplus : " + ".toList = [' ', '+', ' '] := by decide
      rw [List.map_cons, List.map_cons, String.intercalate_cons_cons, ← List.map_cons]
      simpa [String.toList_append, hplus, chunkSum, Spells, OfSum.yield, OfProduct.yield, chunk,
        OfPrimary.yield, Token.word, Operator.symbol] using hjoined

/-- A text as it is printed, in one literal or in more. -/
theorem spells_text (s : String) : Spells (Printer.text s).toList (text s).yield := by
  obtain ⟨hnonempty, hquotes⟩ := Printer.quoteChunks_quotes s.toList
  unfold Printer.text text
  generalize Printer.quoteChunks s.toList = chunks at hnonempty hquotes ⊢
  split
  · obtain ⟨quote, hquote⟩ := hquotes _ (List.mem_singleton_self _)
    exact Printer.reads_chunk hquote
  · have hsum : Spells _ (OfExpression.plain (chunkSum chunks)).yield :=
      spells_chunkSum hnonempty hquotes
    simpa [String.toList_append] using spells_enclosed hsum

end Spelling

-- ========================================================= whole trees

open Spelling

mutual

/-- A printed tree is read as its spelling. -/
theorem Expr.spells (e : Expr) (h : e.printable = true) :
    Spells e.print.toList e.spelling.yield := by
  cases e with
  | number x => exact spells_number x
  | text s => exact spells_text s
  | identifier name => exact Reads.name h
  | binary op left right =>
    simp only [Expr.printable, Bool.and_eq_true] at h
    simpa [Expr.print, Expr.spelling, String.toList_append] using
      spells_operation op (left.spells h.1) (right.spells h.2)
  | conditional condition whenTrue whenFalse =>
    simp only [Expr.printable, Bool.and_eq_true] at h
    have hcondition := condition.spells h.1.1
    have htrue := whenTrue.spells h.1.2
    have hfalse := whenFalse.spells h.2
    have hquestion : " ? ".toList = [' ', '?', ' '] := by decide
    have hcolon : " : ".toList = [' ', ':', ' '] := by decide
    simpa [Expr.print, Expr.spelling, String.toList_append, hquestion, hcolon] using
      spells_choice hcondition htrue hfalse
  | call name arguments =>
    simp only [Expr.printable, Bool.and_eq_true] at h
    have hname := Reads.name h.1
    cases arguments with
    | nil =>
      have hcall := hname.append_parts (c := '(') (by decide)
        ((Reads.sign (c := ')') rfl).cons_sign (c := '(') rfl)
      simpa [Expr.print, Expr.printAll, Expr.spelling, String.toList_append, Spells,
        OfPrimary.yield, Token.word] using hcall
    | cons e rest =>
      have hrow := Expr.spells_row (e :: rest) (List.cons_ne_nil _ _) h.2
      have hclosed := hrow.append_parts (c := ')') (by decide) (Reads.sign rfl)
      have hcall := hname.append_parts (c := '(') (by decide) (hclosed.cons_sign rfl)
      simpa [Expr.print, Expr.spelling, String.toList_append, Spells, OfPrimary.yield,
        Token.word] using hcall
  | group statement =>
    simp only [Expr.printable, Bool.and_eq_true, Bool.not_eq_true', List.isEmpty_eq_false_iff] at h
    have hrow := Expr.spells_row statement h.1 h.2
    have hclosed := hrow.append_parts (c := ')') (by decide) (Reads.sign rfl)
    simpa [Expr.print, Expr.spelling, String.toList_append, Spells, OfPrimary.yield,
      Token.word] using hclosed.cons_sign (c := '(') rfl

/-- A printed row is read as the spelling of the row. -/
theorem Expr.spells_row (row : List Expr) (hnonempty : row ≠ [])
    (h : Expr.allPrintable row = true) :
    Spells (Expr.printAll row).toList (Expr.spellingAll row).yield := by
  match row with
  | [] => exact absurd rfl hnonempty
  | [e] =>
    simp only [Expr.allPrintable, Bool.and_true] at h
    exact e.spells h
  | e :: e' :: rest =>
    rw [Expr.allPrintable, Bool.and_eq_true] at h
    have hfirst := e.spells h.1
    have hrest := Expr.spells_row (e' :: rest) (List.cons_ne_nil _ _) h.2
    have hcomma : ", ".toList = [',', ' '] := by decide
    have hboth := hfirst.append_parts (c := ',') (by decide) (hrest.cons_space.cons_sign rfl)
    simpa [Expr.printAll, Expr.spellingAll, String.toList_append, hcomma, Spells,
      OfStatement.yield, OfExpression.yield, OfPrimary.expression, OfPrimary.sum, OfSum.yield,
      OfProduct.yield, Token.word] using hboth

end

/-- Statements are printed with a semicolon behind each and a blank between
them. -/
theorem Program.spells_statements (ss : List Statement) (hnonempty : ss ≠ [])
    (h : ∀ s ∈ ss, s ≠ [] ∧ Expr.allPrintable s = true) :
    Spells (" ".intercalate (ss.map fun s => Expr.printAll s ++ ";")).toList
      (Program.spellingOf ss).yield := by
  induction ss with
  | nil => exact absurd rfl hnonempty
  | cons s ss ih =>
    obtain ⟨hs, hprintable⟩ := h s List.mem_cons_self
    have hrow := Expr.spells_row s hs hprintable
    cases ss with
    | nil =>
      have hended := hrow.append_parts (c := ';') (by decide) (Reads.sign rfl)
      simpa [Program.spellingOf, String.toList_append, Spells, OfProgram.yield, Token.word]
        using hended
    | cons s' ss =>
      have hrest := ih (List.cons_ne_nil _ _) fun s hs => h s (List.mem_cons_of_mem _ hs)
      rw [List.map_cons] at hrest
      have hboth := hrow.append_parts (c := ';') (by decide) (hrest.cons_space.cons_sign rfl)
      rw [List.map_cons, List.map_cons, String.intercalate_cons_cons]
      simpa [Program.spellingOf, String.toList_append, Spells, OfProgram.yield, Token.word]
        using hboth

/-- A printed program is read as its spelling. -/
theorem Program.spells (p : Program) (h : p.printable = true) :
    Spells p.print.toList p.spelling.yield := by
  simp only [Program.printable, Bool.and_eq_true, Bool.not_eq_true', List.isEmpty_eq_false_iff,
    List.all_eq_true] at h
  exact Program.spells_statements p.statements h.1 h.2

end Reckoner
