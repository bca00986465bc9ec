/-
What becomes of a program that is printed and read back. A program that
was read holds nothing but literals, so its spelling adds no operations
to it but the one for infinity, and the tree comes back with every
operator and every choice in parentheses of its own: wrapped.

Parentheses cost levels. How many a printed tree takes is worked out
along the tree, and compared with the levels that the derivation of the
source had: an operator of the source is one level at least, and its
parentheses make four of it.
-/
import Reckoner.Proofs.Printing.RoundTrip

namespace Reckoner

open Reckoner.Derivation Lexer

-- ============================================================ wrapping

mutual

/-- The tree with every operation and every choice in a group of its own,
and with infinity as the quotient that it is written as. -/
def Expr.wrapped : Expr → Expr
  | .number x =>
    if x = .infinity then .group [.binary .div (.number .one) (.number .zero)] else .number x
  | .text s => .text s
  | .identifier name => .identifier name
  | .binary op left right => .group [.binary op left.wrapped right.wrapped]
  | .conditional condition whenTrue whenFalse =>
    .group [.conditional condition.wrapped whenTrue.wrapped whenFalse.wrapped]
  | .call name arguments => .call name (Expr.wrappedAll arguments)
  | .group statement => .group (Expr.wrappedAll statement)

/-- The trees of a row, wrapped one by one. -/
def Expr.wrappedAll : List Expr → List Expr
  | [] => []
  | e :: rest => e.wrapped :: Expr.wrappedAll rest

end

/-- The program with every expression wrapped. -/
def Program.wrapped (p : Program) : Program := ⟨p.statements.map Expr.wrappedAll⟩

mutual

/-- The tree without the groups that hold one expression. -/
def Expr.ungrouped : Expr → Expr
  | .number x => .number x
  | .text s => .text s
  | .identifier name => .identifier name
  | .binary op left right => .binary op left.ungrouped right.ungrouped
  | .conditional condition whenTrue whenFalse =>
    .conditional condition.ungrouped whenTrue.ungrouped whenFalse.ungrouped
  | .call name arguments => .call name (Expr.ungroupedAll arguments)
  | .group statement =>
    match Expr.ungroupedAll statement with
    | [e] => e
    | row => .group row

/-- The trees of a row without such groups. -/
def Expr.ungroupedAll : List Expr → List Expr
  | [] => []
  | e :: rest => e.ungrouped :: Expr.ungroupedAll rest

end

/-- The program without the groups that hold one expression. -/
def Program.ungrouped (p : Program) : Program := ⟨p.statements.map Expr.ungroupedAll⟩

mutual

/-- Is no number of the tree an infinity? -/
def Expr.finite : Expr → Bool
  | .number x => !x.isInfinite
  | .text _ | .identifier _ => true
  | .binary _ left right => left.finite && right.finite
  | .conditional condition whenTrue whenFalse =>
    condition.finite && whenTrue.finite && whenFalse.finite
  | .call _ arguments => Expr.allFinite arguments
  | .group statement => Expr.allFinite statement

def Expr.allFinite : List Expr → Bool
  | [] => true
  | e :: rest => e.finite && Expr.allFinite rest

end

/-- Is no number of the program an infinity? -/
def Program.finite (p : Program) : Bool := p.statements.all Expr.allFinite

mutual

/-- Without infinity, wrapping does no more than add groups that hold one
expression. -/
theorem Expr.ungrouped_wrapped (e : Expr) (h : e.finite = true) :
    e.wrapped.ungrouped = e.ungrouped := by
  cases e with
  | number x =>
    have hx : x ≠ .infinity := by
      rintro rfl
      cases h
    rw [Expr.wrapped, if_neg hx]
  | text s => rfl
  | identifier name => rfl
  | binary op left right =>
    simp only [Expr.finite, Bool.and_eq_true] at h
    show Expr.binary op left.wrapped.ungrouped right.wrapped.ungrouped = _
    rw [left.ungrouped_wrapped h.1, right.ungrouped_wrapped h.2, Expr.ungrouped]
  | conditional condition whenTrue whenFalse =>
    simp only [Expr.finite, Bool.and_eq_true] at h
    show Expr.conditional condition.wrapped.ungrouped whenTrue.wrapped.ungrouped
      whenFalse.wrapped.ungrouped = _
    rw [condition.ungrouped_wrapped h.1.1, whenTrue.ungrouped_wrapped h.1.2,
      whenFalse.ungrouped_wrapped h.2, Expr.ungrouped]
  | call name arguments =>
    rw [Expr.wrapped, Expr.ungrouped, Expr.ungrouped, Expr.ungroupedAll_wrappedAll arguments h]
  | group statement =>
    rw [Expr.wrapped, Expr.ungrouped, Expr.ungrouped, Expr.ungroupedAll_wrappedAll statement h]

theorem Expr.ungroupedAll_wrappedAll (row : List Expr) (h : Expr.allFinite row = true) :
    Expr.ungroupedAll (Expr.wrappedAll row) = Expr.ungroupedAll row := by
  cases row with
  | nil => rfl
  | cons e rest =>
    simp only [Expr.allFinite, Bool.and_eq_true] at h
    rw [Expr.wrappedAll, Expr.ungroupedAll, Expr.ungroupedAll, e.ungrouped_wrapped h.1,
      Expr.ungroupedAll_wrappedAll rest h.2]

end

/-- The same of all expressions of a program. -/
theorem Program.ungrouped_wrapped (p : Program) (h : p.finite = true) :
    p.wrapped.ungrouped = p.ungrouped := by
  unfold Program.ungrouped Program.wrapped
  rw [List.map_map]
  refine congrArg Program.mk (List.map_congr_left fun s hs => ?_)
  exact Expr.ungroupedAll_wrappedAll s (List.all_eq_true.1 h s hs)

-- ============================================================ levels

mutual

/-- The levels that a printed tree takes, those of the statement it stands
in aside. -/
def Expr.levels : Expr → Nat
  | .number x => if x = .infinity then 4 else 0
  | .text _ | .identifier _ => 0
  | .binary _ left right => max (left.levels + 3) (right.levels + 4)
  | .conditional condition whenTrue whenFalse =>
    max condition.levels (max whenTrue.levels whenFalse.levels) + 3
  | .call _ arguments => Expr.levelsAll arguments
  | .group statement => Expr.levelsAll statement

/-- A row takes as many levels as its expressions do, each with the
expression, the sum and the product that it is. -/
def Expr.levelsAll : List Expr → Nat
  | [] => 0
  | e :: rest => max (e.levels + 3) (Expr.levelsAll rest)

end

/-- The levels that a printed program takes. -/
def Program.levels (p : Program) : Nat := (p.statements.map Expr.levelsAll).foldr max 0

-- ==================================================== trees of literals

mutual

/-- Is every leaf of the tree one that a source can hold, and no group
empty? -/
def Expr.Legible : Expr → Prop
  | .number x => x.isNegative = false
  | .text s => ∃ quote, Printer.Quotes quote s.toList
  | .identifier name => isName name = true
  | .binary _ left right => left.Legible ∧ right.Legible
  | .conditional condition whenTrue whenFalse =>
    condition.Legible ∧ whenTrue.Legible ∧ whenFalse.Legible
  | .call name arguments => isName name = true ∧ Expr.AllLegible arguments
  | .group statement => statement ≠ [] ∧ Expr.AllLegible statement

/-- Are all trees of a row such trees? -/
def Expr.AllLegible : List Expr → Prop
  | [] => True
  | e :: rest => e.Legible ∧ Expr.AllLegible rest

end

/-- Is every statement a row of such trees, and none of them empty? -/
def Program.Legible (p : Program) : Prop :=
  p.statements ≠ [] ∧ ∀ s ∈ p.statements, s ≠ [] ∧ Expr.AllLegible s

mutual

/-- What a source can hold can be printed and read back. -/
theorem Expr.Legible.printable {e : Expr} (h : e.Legible) : e.printable = true := by
  cases e with
  | number x => rfl
  | text s => rfl
  | identifier name => exact h
  | binary op left right =>
    rw [Expr.printable, Legible.printable h.1, Legible.printable h.2]
    rfl
  | conditional condition whenTrue whenFalse =>
    rw [Expr.printable, Legible.printable h.1, Legible.printable h.2.1, Legible.printable h.2.2]
    rfl
  | call name arguments =>
    rw [Expr.printable, h.1, AllLegible.allPrintable h.2]
    rfl
  | group statement =>
    rw [Expr.printable, AllLegible.allPrintable h.2, List.isEmpty_eq_false_iff.2 h.1]
    rfl

theorem Expr.AllLegible.allPrintable {row : List Expr} (h : Expr.AllLegible row) :
    Expr.allPrintable row = true := by
  cases row with
  | nil => rfl
  | cons e rest =>
    rw [Expr.allPrintable, Legible.printable h.1, AllLegible.allPrintable h.2]
    rfl

end

theorem Program.Legible.printable {p : Program} (h : p.Legible) : p.printable = true := by
  simp only [Program.printable, Bool.and_eq_true, Bool.not_eq_true', List.isEmpty_eq_false_iff,
    List.all_eq_true]
  exact ⟨h.1, fun s hs => ⟨(h.2 s hs).1, (h.2 s hs).2.allPrintable⟩⟩

-- ================================================= spellings of such trees

open Spelling

/-- Parentheses are three levels, and an operation has its second operand
one level further down. -/
theorem Spelling.depth_operation (op : Operator) (left right : OfPrimary) :
    (operation op left right).depth = max (left.depth + 3) (right.depth + 4) := by
  unfold operation enclosed
  split
  · simp only [OfPrimary.depth, OfStatement.depth, OfExpression.depth, OfSum.depth,
      OfProduct.depth, OfPrimary.sum]
    omega
  · simp only [OfPrimary.depth, OfStatement.depth, OfExpression.depth, OfSum.depth,
      OfProduct.depth]
    omega

/-- The three parts of a choice stand side by side. -/
theorem Spelling.depth_choice (condition whenTrue whenFalse : OfPrimary) :
    (choice condition whenTrue whenFalse).depth
      = max condition.depth (max whenTrue.depth whenFalse.depth) + 3 := by
  simp only [choice, enclosed, OfPrimary.depth, OfStatement.depth, OfExpression.depth,
    OfSum.depth, OfProduct.depth, OfPrimary.sum]
  omega

/-- A number without a sign is spelled as it stands, infinity aside. -/
theorem Spelling.number_legible {x : Binary64} (h : x.isNegative = false) :
    (number x).tree = (Expr.number x).wrapped ∧ (number x).depth = (Expr.number x).levels := by
  match x with
  | .nan => exact ⟨rfl, rfl⟩
  | .signed false m =>
    rw [number, magnitude, Expr.wrapped, Expr.levels]
    by_cases hinfinite : m.isInfinite = true
    · rw [if_pos hinfinite, if_pos (Binary64.eq_infinity hinfinite),
        if_pos (Binary64.eq_infinity hinfinite)]
      exact ⟨tree_operation .div one zero, depth_operation .div one zero⟩
    · have hfinite : Binary64.signed false m ≠ .infinity := by
        intro heq
        injection heq with _ heq
        exact hinfinite (by rw [heq]; rfl)
      rw [if_neg hinfinite, if_neg hfinite, if_neg hfinite]
      exact ⟨rfl, rfl⟩
  | .signed true m => cases h

/-- A text without quotes of one kind is spelled as it stands. -/
theorem Spelling.text_legible {s : String} {quote : Char} (h : Printer.Quotes quote s.toList) :
    text s = .text s default := by
  have hchunks : Printer.quoteChunks s.toList = [s.toList] :=
    Printer.chunksFrom_of_quotes h (.inl rfl)
  rw [text, hchunks]
  exact congrArg (OfPrimary.text · default) String.ofList_toList

mutual

/-- A tree of literals is read back wrapped, from so many levels. -/
theorem Expr.Legible.spelling {e : Expr} (h : e.Legible) :
    e.spelling.tree = e.wrapped ∧ e.spelling.depth = e.levels := by
  cases e with
  | number x => exact number_legible h
  | text s =>
    obtain ⟨quote, hquote⟩ := h
    rw [Expr.spelling, text_legible hquote]
    exact ⟨rfl, rfl⟩
  | identifier name => exact ⟨rfl, rfl⟩
  | binary op left right =>
    obtain ⟨hltree, hldepth⟩ := Legible.spelling h.1
    obtain ⟨hrtree, hrdepth⟩ := Legible.spelling h.2
    rw [Expr.spelling, tree_operation, depth_operation, hltree, hrtree, hldepth, hrdepth]
    exact ⟨rfl, rfl⟩
  | conditional condition whenTrue whenFalse =>
    obtain ⟨hctree, hcdepth⟩ := Legible.spelling h.1
    obtain ⟨hatree, hadepth⟩ := Legible.spelling h.2.1
    obtain ⟨hbtree, hbdepth⟩ := Legible.spelling h.2.2
    rw [Expr.spelling, tree_choice, depth_choice, hctree, hatree, hbtree, hcdepth, hadepth, hbdepth]
    exact ⟨rfl, rfl⟩
  | call name arguments =>
    cases arguments with
    | nil => exact ⟨rfl, rfl⟩
    | cons e rest =>
      obtain ⟨htrees, hdepth⟩ := AllLegible.spelling h.2 (List.cons_ne_nil e rest)
      exact ⟨congrArg (Expr.call name) htrees, hdepth⟩
  | group statement =>
    obtain ⟨htrees, hdepth⟩ := AllLegible.spelling h.2 h.1
    exact ⟨congrArg Expr.group htrees, hdepth⟩

theorem Expr.AllLegible.spelling {row : List Expr} (h : Expr.AllLegible row)
    (hnonempty : row ≠ []) :
    (Expr.spellingAll row).trees = Expr.wrappedAll row ∧
      (Expr.spellingAll row).depth = Expr.levelsAll row := by
  match row with
  | [] => exact absurd rfl hnonempty
  | [e] =>
    obtain ⟨htree, hdepth⟩ := Legible.spelling h.1
    constructor
    · show [e.spelling.tree] = [e.wrapped]
      rw [htree]
    · show e.spelling.depth + 1 + 1 + 1 = max (e.levels + 3) 0
      rw [hdepth]
      omega
  | e :: e' :: rest =>
    obtain ⟨htree, hdepth⟩ := Legible.spelling h.1
    obtain ⟨htrees, hdepths⟩ := AllLegible.spelling h.2 (List.cons_ne_nil e' rest)
    constructor
    · show e.spelling.tree :: (Expr.spellingAll (e' :: rest)).trees = _
      rw [htree, htrees]
      rfl
    · show max (e.spelling.depth + 1 + 1 + 1) (Expr.spellingAll (e' :: rest)).depth = _
      rw [hdepth, hdepths]
      rfl

end

/-- A program of literals is read back wrapped, from so many levels. -/
theorem Program.Legible.spelling {p : Program} (h : p.Legible) :
    p.spelling.tree = p.wrapped ∧ p.spelling.depth = p.levels := by
  obtain ⟨ss⟩ := p
  obtain ⟨hnonempty, hall⟩ := h
  dsimp only at hnonempty hall
  suffices (Program.spellingOf ss).statements = ss.map Expr.wrappedAll ∧
      (Program.spellingOf ss).depth = (ss.map Expr.levelsAll).foldr max 0 from
    ⟨congrArg Program.mk this.1, this.2⟩
  induction ss with
  | nil => exact absurd rfl hnonempty
  | cons s ss ih =>
    obtain ⟨hs, hlegible⟩ := hall s List.mem_cons_self
    obtain ⟨htrees, hdepth⟩ := hlegible.spelling hs
    cases ss with
    | nil =>
      constructor
      · show [(Expr.spellingAll s).trees] = [Expr.wrappedAll s]
        rw [htrees]
      · show (Expr.spellingAll s).depth = max (Expr.levelsAll s) 0
        rw [hdepth]
        omega
    | cons s' ss =>
      obtain ⟨hrest, hrestdepth⟩ :=
        ih (List.cons_ne_nil _ _) fun s hs => hall s (List.mem_cons_of_mem _ hs)
      constructor
      · show (Expr.spellingAll s).trees :: (Program.spellingOf (s' :: ss)).statements = _
        rw [htrees, hrest]
        rfl
      · show max (Expr.spellingAll s).depth (Program.spellingOf (s' :: ss)).depth = _
        rw [hdepth, hrestdepth]
        rfl

end Reckoner
