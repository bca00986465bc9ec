/-
Sources printed and read back. What a source is read as holds literals
only, and its printed text takes at most four times the levels that the
source took, and one more. So the text of a program that was read is read
back as the wrapped program wherever the limit is raised that much.

The limit is not raised for a text because it was printed. Under the
default limits a program comes back if its printed text keeps within
them, and then it does the same; a text that does not is refused. Sums
show that this happens: each operator costs a sum one level and its
printed text four.
-/
import Reckoner.Proofs.Evaluation.Nesting
import Reckoner.Proofs.Printing.Wrapping

namespace Reckoner

open Reckoner.Derivation Lexer

-- ============================================== sources hold literals

namespace Derivation

/-- Are the words of the tokens ones that a source can have? -/
def FromSource (tokens : List Token) : Prop := ∀ t ∈ tokens, Lexical t.word

namespace FromSource

variable {front back : List Token} {t : Token}

theorem left (h : FromSource (front ++ t :: back)) : FromSource front :=
  fun t ht => h t (List.mem_append_left _ ht)

theorem right (h : FromSource (front ++ t :: back)) : FromSource back :=
  fun t ht => h t (List.mem_append_right _ (List.mem_cons_of_mem _ ht))

/-- What is said of all tokens, said of the first. -/
theorem head (h : FromSource (t :: back)) : Lexical t.word := h t List.mem_cons_self

theorem tail (h : FromSource (t :: back)) : FromSource back :=
  fun t ht => h t (List.mem_cons_of_mem _ ht)

end FromSource

mutual

/-- An expression from a source has literals only; so has each part of it,
by the same recursion. -/
theorem OfExpression.legible (d : OfExpression) (h : FromSource d.yield) : d.tree.Legible := by
  cases d with
  | plain body => exact body.legible h
  | choice condition question whenTrue colon whenFalse =>
    exact ⟨condition.legible h.left, whenTrue.legible h.right.left, whenFalse.legible h.right.right⟩

theorem OfSum.legible (d : OfSum) (h : FromSource d.yield) : d.tree.Legible := by
  cases d with
  | single operand => exact operand.legible h
  | joined left op additive place right => exact ⟨left.legible h.left, right.legible h.right⟩

theorem OfProduct.legible (d : OfProduct) (h : FromSource d.yield) : d.tree.Legible := by
  cases d with
  | single operand => exact operand.legible h
  | joined left op multiplicative place right => exact ⟨left.legible h.left, right.legible h.right⟩

/-- Here the literals are: each is the word of one token. -/
theorem OfPrimary.legible (d : OfPrimary) (h : FromSource d.yield) : d.tree.Legible := by
  cases d with
  | number value place => exact h.head
  | text content place =>
    obtain ⟨quote, hquote, hmem⟩ := h.head
    exact Printer.exists_quotes hquote hmem
  | identifier name place => exact h.head
  | bareCall name place opening closing => exact ⟨h.head, trivial⟩
  | call name place opening arguments closing =>
    exact ⟨h.head, (arguments.legible h.tail.tail.left).2⟩
  | group opening body closing => exact body.legible h.tail.left

/-- A row is not empty, which is what a group asks of it. -/
theorem OfStatement.legible (d : OfStatement) (h : FromSource d.yield) :
    d.trees ≠ [] ∧ Expr.AllLegible d.trees := by
  cases d with
  | last e => exact ⟨List.cons_ne_nil _ _, e.legible h, trivial⟩
  | more e comma rest => exact ⟨List.cons_ne_nil _ _, e.legible h.left, (rest.legible h.right).2⟩

end

/-- A program read from a source holds literals only. -/
theorem OfProgram.legible (d : OfProgram) (h : FromSource d.yield) : d.tree.Legible := by
  suffices d.statements ≠ [] ∧ ∀ s ∈ d.statements, s ≠ [] ∧ Expr.AllLegible s from this
  induction d with
  | last s semicolon =>
    refine ⟨List.cons_ne_nil _ _, fun s' hs' => ?_⟩
    obtain rfl := List.mem_singleton.1 hs'
    exact s.legible h.left
  | more s semicolon rest ih =>
    refine ⟨List.cons_ne_nil _ _, fun s' hs' => ?_⟩
    rcases List.mem_cons.1 hs' with rfl | hs'
    · exact s.legible h.left
    · exact (ih h.right).2 s' hs'

-- ================================================= what printing costs

-- A part that is itself printed in parentheses takes three levels more
-- than its operands, or four; the bounds leave each rule what it is short
-- of a whole turn.

mutual

/-- A choice is printed in parentheses for three levels more, and the level
of the expression itself pays four. -/
theorem OfExpression.levels_le (d : OfExpression) : d.tree.levels + 2 ≤ 4 * d.depth := by
  cases d with
  | plain body =>
    obtain ⟨hlevels, _⟩ := body.levels_le
    rw [OfExpression.tree, OfExpression.depth]
    omega
  | choice condition question whenTrue colon whenFalse =>
    obtain ⟨hc, _⟩ := condition.levels_le
    obtain ⟨ha, _⟩ := whenTrue.levels_le
    obtain ⟨hb, _⟩ := whenFalse.levels_le
    rw [OfExpression.tree, OfExpression.depth, Expr.levels]
    omega

/-- A sum pays four levels for its operator, and is two levels at least. -/
theorem OfSum.levels_le (d : OfSum) : d.tree.levels + 1 ≤ 4 * d.depth ∧ 2 ≤ d.depth := by
  cases d with
  | single operand =>
    obtain ⟨hlevels, hdepth⟩ := operand.levels_le
    rw [OfSum.tree, OfSum.depth]
    omega
  | joined left op additive place right =>
    obtain ⟨hl, hldepth⟩ := left.levels_le
    obtain ⟨hr, hrdepth⟩ := right.levels_le
    rw [OfSum.tree, OfSum.depth, Expr.levels]
    omega

/-- A product pays four levels for its operator, like a sum. -/
theorem OfProduct.levels_le (d : OfProduct) : d.tree.levels ≤ 4 * d.depth ∧ 1 ≤ d.depth := by
  cases d with
  | single operand =>
    have hlevels := operand.levels_le
    rw [OfProduct.tree, OfProduct.depth]
    omega
  | joined left op multiplicative place right =>
    have hl := left.levels_le
    obtain ⟨hr, hrdepth⟩ := right.levels_le
    rw [OfProduct.tree, OfProduct.depth, Expr.levels]
    omega

/-- The four levels of infinity are for a literal that has no level of its
own. -/
theorem OfPrimary.levels_le (d : OfPrimary) : d.tree.levels ≤ max (4 * d.depth + 1) 4 := by
  cases d with
  | number value place =>
    rw [OfPrimary.tree, Expr.levels]
    split <;> omega
  | text content place => exact Nat.zero_le _
  | identifier name place => exact Nat.zero_le _
  | bareCall name place opening closing => exact Nat.zero_le _
  | call name place opening arguments closing =>
    exact Nat.le_trans arguments.levelsAll_le (Nat.le_max_left ..)
  | group opening body closing => exact Nat.le_trans body.levelsAll_le (Nat.le_max_left ..)

/-- A row adds three levels to each expression, the last one of which is not
paid for. -/
theorem OfStatement.levelsAll_le (d : OfStatement) :
    Expr.levelsAll d.trees ≤ 4 * d.depth + 1 := by
  cases d with
  | last e =>
    have he := e.levels_le
    rw [OfStatement.trees, OfStatement.depth, Expr.levelsAll, Expr.levelsAll]
    omega
  | more e comma rest =>
    have he := e.levels_le
    have hrest := rest.levelsAll_le
    rw [OfStatement.trees, OfStatement.depth, Expr.levelsAll]
    omega

end

/-- A printed program takes four times the levels of its source at most,
and one more. -/
theorem OfProgram.levels_le (d : OfProgram) : d.tree.levels ≤ 4 * d.depth + 1 := by
  show (d.statements.map Expr.levelsAll).foldr max 0 ≤ _
  induction d with
  | last s semicolon =>
    have hs := s.levelsAll_le
    show max (Expr.levelsAll s.trees) 0 ≤ 4 * s.depth + 1
    omega
  | more s semicolon rest ih =>
    have hs := s.levelsAll_le
    rw [OfProgram.statements, OfProgram.depth, List.map_cons, List.foldr_cons]
    omega

end Derivation

-- ============================================================ read back

/-- A source that is read has a derivation that yields its tokens. -/
theorem Engine.exists_yield {engine : Engine} {source : String} {p : Program}
    (h : engine.parse source = .ok p) : ∃ d : OfProgram,
      tokenize source = .ok d.yield ∧ d.tree = p ∧ d.depth ≤ engine.parseLimit := by
  obtain ⟨tokens, htokens, hread⟩ := Engine.parse_eq_ok_iff.1 h
  have hagree : Parser.Agreeing tokens := fun t ht => (tokensFrom_lexical htokens t ht).agrees
  obtain ⟨d, rfl, htree, hdepth⟩ := exists_of_ofTokens hagree hread
  exact ⟨d, htokens, htree, hdepth⟩

/-- It is made of words that a source can have. -/
theorem Engine.exists_derivation {engine : Engine} {source : String} {p : Program}
    (h : engine.parse source = .ok p) :
    ∃ d : OfProgram, FromSource d.yield ∧ d.tree = p ∧ d.depth ≤ engine.parseLimit := by
  obtain ⟨d, htokens, htree, hdepth⟩ := Engine.exists_yield h
  exact ⟨d, tokensFrom_lexical htokens, htree, hdepth⟩

/-- A program that was read is printed as a text that is read back as the
wrapped program where it fits the limit, and refused for its depth
elsewhere. -/
theorem Program.Legible.parse_print {p : Program} (h : p.Legible) (engine : Engine) :
    (p.levels ≤ engine.parseLimit → engine.parse p.print = .ok p.wrapped) ∧
      (engine.parseLimit < p.levels → ∃ span, engine.parse p.print
        = .error (.parse ⟨.maxDepthExceeded engine.parseLimit, span⟩)) := by
  rw [← h.spelling.1, ← h.spelling.2]
  exact Engine.parse_of_spells (p.spells h.printable) engine

-- ================================================================= sums

/-- One, and so many times a plus and one. -/
def onesText : Nat → List Char
  | 0 => ['1']
  | n + 1 => '1' :: '+' :: onesText n

/-- The sum that this text is. -/
def onesSum : Nat → OfSum
  | 0 => Spelling.one.sum
  | n + 1 => .joined (.single Spelling.one) .add Operator.isAdditive_add default (onesSum n)

/-- The sum as a source, with its semicolon. -/
def onesSource (n : Nat) : String := String.ofList (onesText n ++ [';'])

/-- The sum as a program. -/
def onesProgram (n : Nat) : OfProgram := .last (.last (.plain (onesSum n))) default

/-- The text is read as the sum. -/
theorem spells_onesText (n : Nat) : Spells (onesText n) (onesSum n).yield := by
  induction n with
  | zero => exact Spelling.spells_one
  | succ n ih =>
    have hjoined := Spelling.spells_one.append_parts (c := '+') (by decide) (ih.cons_sign rfl)
    simpa [onesText, onesSum, Spells, OfSum.yield, OfProduct.yield, Token.word,
      Operator.symbol] using hjoined

/-- Each plus is a level of the source. -/
theorem depth_onesSum (n : Nat) : (onesSum n).depth = n + 2 := by
  induction n with
  | zero => rfl
  | succ n ih =>
    show max 1 (onesSum n).depth + 1 = n + 1 + 2
    omega

/-- Each plus is four levels of the printed text. -/
theorem levels_onesSum (n : Nat) : (onesSum n).tree.levels = 4 * n := by
  induction n with
  | zero => rfl
  | succ n ih =>
    show max 3 ((onesSum n).tree.levels + 4) = 4 * (n + 1)
    omega

/-- A sum of ones takes one level for each of its pluses, and three more;
as many as fit are read. -/
theorem parse_onesSource (engine : Engine) (n : Nat) (h : n + 3 ≤ engine.parseLimit) :
    engine.parse (onesSource n) = .ok (onesProgram n).tree := by
  have hspells : Spells (onesSource n).toList (onesProgram n).yield := by
    have hended := (spells_onesText n).append_parts (c := ';') (by decide) (Reads.sign rfl)
    simpa [onesSource, onesProgram, Spells, OfProgram.yield, OfStatement.yield,
      OfExpression.yield, Token.word] using hended
  refine (Engine.parse_of_spells hspells engine).1 ?_
  show (onesSum n).depth + 1 ≤ _
  rw [depth_onesSum]
  exact h

/-- The statement adds the levels of an expression, a sum and a product. -/
theorem levels_onesProgram (n : Nat) : (onesProgram n).tree.levels = 4 * n + 3 := by
  show max (max ((onesSum n).tree.levels + 3) 0) 0 = _
  rw [levels_onesSum]
  omega

-- ==================================================== with more levels

/-- The printed text of a program that was read is read back as the wrapped
program, under four times the limit and one. Wrapping is no more than
adding parentheses, if the program names no infinity. -/
theorem Engine.parse_print_wrapped {engine engine' : Engine} {source : String} {p : Program}
    (h : engine.parse source = .ok p) (hlimit : 4 * engine.parseLimit + 1 ≤ engine'.parseLimit) :
    engine'.parse p.print = .ok p.wrapped ∧
      (p.finite = true → p.wrapped.ungrouped = p.ungrouped) := by
  obtain ⟨d, hsource, rfl, hdepth⟩ := Engine.exists_derivation h
  have hlevels := d.levels_le
  refine ⟨((d.legible hsource).parse_print engine').1 (by omega), ?_⟩
  exact Program.ungrouped_wrapped _

/-- Two pluses, under the default limit and under four times that and
one. -/
theorem parse_print_wrapped_ones :
    (default : Engine).parse (onesSource 2) = .ok (onesProgram 2).tree ∧
      (Engine.mk 2001 1000).parse (onesProgram 2).tree.print = .ok (onesProgram 2).tree.wrapped ∧
      (onesProgram 2).tree.wrapped.ungrouped = (onesProgram 2).tree.ungrouped := by
  have hparse := parse_onesSource default 2 (by decide)
  have hlimit : 4 * (default : Engine).parseLimit + 1 ≤ (Engine.mk 2001 1000).parseLimit := by
    decide
  obtain ⟨hback, hungrouped⟩ := Engine.parse_print_wrapped hparse hlimit
  exact ⟨hparse, hback, hungrouped (by decide)⟩

-- ==================================================== the default limits

/-- Under the default limits nothing that is read is too high to be
evaluated. -/
theorem Engine.run_of_parse {source : String} {p : Program}
    (h : (default : Engine).parse source = .ok p) {φ σ : Type} [HostFunction φ] (host : Host φ σ)
    (env : Environment φ) (state : σ) :
    (default : Engine).run host env p state = p.meaning host env state := by
  obtain ⟨d, -, rfl, hdepth⟩ := Engine.exists_derivation h
  have hheight := d.height_le
  have hparse : (default : Engine).parseLimit = 500 := rfl
  have heval : (default : Engine).evalLimit = 1000 := rfl
  exact Engine.run_of_height_le (by omega) host env state

/-- A program that was read under the default limits comes back under them
exactly if its printed text takes no more levels than they allow, and does
the same then. Otherwise the text is refused. -/
theorem Engine.reparse_within_limits {source : String} {p : Program}
    (h : (default : Engine).parse source = .ok p) :
    (p.levels ≤ 500 → (default : Engine).parse p.print = .ok p.wrapped ∧
      ∀ {φ σ : Type} [HostFunction φ] (host : Host φ σ) (env : Environment φ) (state : σ),
        (default : Engine).evaluate host env p.print state
          = (default : Engine).evaluate host env source state) ∧
    (500 < p.levels → ∃ span,
      (default : Engine).parse p.print = .error (.parse ⟨.maxDepthExceeded 500, span⟩)) := by
  obtain ⟨d, hsource, htree, -⟩ := Engine.exists_derivation h
  have hlegible : p.Legible := htree ▸ d.legible hsource
  obtain ⟨hback, hrefused⟩ := hlegible.parse_print default
  refine ⟨fun hlevels => ?_, hrefused⟩
  have hwrapped := hback hlevels
  refine ⟨hwrapped, ?_⟩
  intro φ σ _ host env state
  have hmeaning : p.wrapped.meaning host env = p.meaning host env := by
    rw [← hlegible.spelling.1, p.meaning_spelling host env hlegible.printable]
  unfold Engine.evaluate
  rw [hwrapped, h]
  dsimp only
  rw [Engine.run_of_parse hwrapped, Engine.run_of_parse h, hmeaning]

/-- A sum with 124 operators comes back, one with 125 does not. -/
theorem reparse_within_limits_ones :
    (default : Engine).parse (onesProgram 124).tree.print = .ok (onesProgram 124).tree.wrapped ∧
      ∃ span, (default : Engine).parse (onesProgram 125).tree.print
        = .error (.parse ⟨.maxDepthExceeded 500, span⟩) := by
  have hshort := parse_onesSource default 124 (by decide)
  have hlong := parse_onesSource default 125 (by decide)
  refine ⟨((Engine.reparse_within_limits hshort).1 ?_).1, (Engine.reparse_within_limits hlong).2 ?_⟩
  · rw [levels_onesProgram]
    decide
  · rw [levels_onesProgram]
    decide

/-- So there is a source that is read and whose printed text is not. -/
theorem print_not_reparsed :
    ¬ ∀ source p, (default : Engine).parse source = .ok p →
      ∃ q, (default : Engine).parse p.print = .ok q := by
  intro hall
  have hparse := parse_onesSource default 125 (by decide)
  obtain ⟨q, hq⟩ := hall _ _ hparse
  obtain ⟨d, hsource, htree, -⟩ := Engine.exists_derivation hparse
  have hlegible : (onesProgram 125).tree.Legible := htree ▸ d.legible hsource
  obtain ⟨span, hspan⟩ := (hlegible.parse_print default).2 (by rw [levels_onesProgram]; decide)
  rw [hspan] at hq
  cases hq

end Reckoner
