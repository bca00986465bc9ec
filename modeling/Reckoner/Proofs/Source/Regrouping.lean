/-
Statements cut at commas. A comma of a source is outside all parentheses
exactly if it stands between two expressions of a statement of the
program: an expression is balanced, and the commas in it are between
parentheses. So where semicolons are put for such commas, the derivation
of the program has its statements cut there. The expressions stay as they
are, and since neither commas nor semicolons nest, so does the depth.

That nothing changes within an expression is an equation on its tokens
with any others behind them, with the parentheses that are open as a
number that is passed on. It is proved along the derivation, and there
the tokens before the expression count with that number only.
-/
import Reckoner.Proofs.Lexing.Substitution
import Reckoner.Proofs.Source.Sequence

namespace Reckoner

-- ========================================================== parentheses

/-- How many of the parentheses in the tokens are open at the end. -/
def openParentheses (tokens : List Token) : Int :=
  tokens.countP (·.carries '(') - tokens.countP (·.carries ')')

/-- Is the token a comma of these tokens that is outside all parentheses? -/
def Token.OuterComma (t : Token) (tokens : List Token) : Prop :=
  ∃ front back, tokens = front ++ t :: back ∧ t.kind = .comma ∧ openParentheses front = 0

/-- Parentheses that are open add up. -/
theorem openParentheses_append (front back : List Token) :
    openParentheses (front ++ back) = openParentheses front + openParentheses back := by
  simp only [openParentheses, List.countP_append]
  omega

/-- Semicolons for the commas at the places, where `level` parentheses are
open; only for those outside all of them. -/
def outerSemicolonsAt (places : List Nat) : (level : Int) → List Token → List Token
  | _, [] => []
  | level, t :: ts =>
    (if t.kind = .comma ∧ level = 0 then t.semicolonAt places else t) ::
      outerSemicolonsAt places (level + openParentheses [t]) ts

variable {places : List Nat}

/-- If all the places are those of commas outside parentheses, these are
all semicolons there are to be put. -/
theorem map_semicolonAt_eq {tokens : List Token} (hplaces : ∀ front t back,
      tokens = front ++ t :: back → t.span.start ∈ places →
      t.kind = .comma ∧ openParentheses front = 0) {front ts : List Token}
    (htokens : tokens = front ++ ts) :
    ts.map (Token.semicolonAt places) = outerSemicolonsAt places (openParentheses front) ts := by
  induction ts generalizing front with
  | nil => rfl
  | cons t ts ih =>
    have hhead : t.semicolonAt places
        = if t.kind = .comma ∧ openParentheses front = 0 then t.semicolonAt places else t := by
      by_cases hplace : t.span.start ∈ places
      · rw [if_pos (hplaces front t ts htokens hplace)]
      · rw [Token.semicolonAt, if_neg hplace, ite_self]
    have hbehind : tokens = (front ++ [t]) ++ ts := by
      rw [htokens, List.append_assoc]
      rfl
    rw [List.map_cons, outerSemicolonsAt, ← hhead, ← openParentheses_append, ih hbehind]

-- ========================================================== expressions

/-- No semicolons are put into the tokens, and they close what they open. -/
def Kept (places : List Nat) (level : Int) (tokens : List Token) : Prop :=
  ∀ ts, outerSemicolonsAt places level (tokens ++ ts) = tokens ++ outerSemicolonsAt places level ts

namespace Kept

variable {level : Int} {t : Token} {front back tokens : List Token}

/-- What keeps its commas in both parts keeps all of them. -/
theorem append (hfront : Kept places level front) (hback : Kept places level back) :
    Kept places level (front ++ back) := by
  intro ts
  rw [List.append_assoc, hfront, hback, List.append_assoc]

theorem single (hcomma : t.kind = .comma → level ≠ 0) (hflat : openParentheses [t] = 0) :
    Kept places level [t] := by
  intro ts
  show _ :: outerSemicolonsAt places (level + openParentheses [t]) ts = _
  rw [if_neg fun h => hcomma h.1 h.2, hflat, Int.add_zero]
  rfl

theorem cons (hcomma : t.kind = .comma → level ≠ 0) (hflat : openParentheses [t] = 0)
    (h : Kept places level tokens) : Kept places level (t :: tokens) :=
  (single hcomma hflat).append h

/-- What is between parentheses is at a level of its own. -/
theorem enclosed (h : Kept places (level + 1) tokens) (opening closing : Span) :
    Kept places level (⟨.parenthesis, .symbol '(', opening⟩ ::
      (tokens ++ [⟨.parenthesis, .symbol ')', closing⟩])) := by
  intro ts
  have hclosed : level + 1 + openParentheses [⟨.parenthesis, .symbol ')', closing⟩] = level :=
    Int.add_neg_cancel_right level 1
  show _ :: outerSemicolonsAt places (level + 1) (tokens ++ [_] ++ ts) = _
  rw [if_neg nofun, List.append_assoc, h, List.singleton_append, outerSemicolonsAt, if_neg nofun,
    hclosed, List.cons_append, List.append_assoc]
  rfl

end Kept

namespace Derivation

theorem openParentheses_operator (op : Operator) (place : Span) :
    openParentheses [⟨.operator, .symbol op.symbol, place⟩] = 0 := by
  cases op <;> rfl

mutual

/-- The commas of an expression are within its parentheses, so they are
kept. This is shown for each kind of phrase. -/
theorem OfExpression.kept (d : OfExpression) {level : Int} (h : 0 ≤ level) :
    Kept places level d.yield := by
  cases d with
  | plain body => exact body.kept h
  | choice condition question whenTrue colon whenFalse =>
    exact (condition.kept h).append
      (.cons nofun rfl ((whenTrue.kept h).append (.cons nofun rfl (whenFalse.kept h))))

theorem OfSum.kept (d : OfSum) {level : Int} (h : 0 ≤ level) :
    Kept places level d.yield := by
  cases d with
  | single operand => exact operand.kept h
  | joined left op additive place right =>
    exact (left.kept h).append (.cons nofun (openParentheses_operator op place) (right.kept h))

theorem OfProduct.kept (d : OfProduct) {level : Int} (h : 0 ≤ level) :
    Kept places level d.yield := by
  cases d with
  | single operand => exact operand.kept h
  | joined left op multiplicative place right =>
    exact (left.kept h).append (.cons nofun (openParentheses_operator op place) (right.kept h))

theorem OfPrimary.kept (d : OfPrimary) {level : Int} (h : 0 ≤ level) :
    Kept places level d.yield := by
  have hinside : 0 < level + 1 := by omega
  cases d with
  | number value place => exact .single nofun rfl
  | text content place => exact .single nofun rfl
  | identifier name place => exact .single nofun rfl
  | bareCall name place opening closing =>
    have hnothing : Kept places (level + 1) [] := fun _ => rfl
    exact .cons nofun rfl (hnothing.enclosed opening closing)
  | call name place opening arguments closing =>
    exact .cons nofun rfl ((arguments.kept hinside).enclosed opening closing)
  | group opening body closing => exact (body.kept hinside).enclosed opening closing

/-- A statement between parentheses keeps its commas. -/
theorem OfStatement.kept (d : OfStatement) {level : Int} (h : 0 < level) :
    Kept places level d.yield := by
  have hlevel : level ≠ 0 := by omega
  cases d with
  | last e => exact e.kept (Int.le_of_lt h)
  | more e comma rest =>
    exact (e.kept (Int.le_of_lt h)).append (.cons (fun _ => hlevel) rfl (rest.kept h))

end

-- ============================================================ statements

/-- An expression in front of the first statement of a program. -/
def OfProgram.extended (e : OfExpression) (comma : Span) : OfProgram → OfProgram
  | .last s semicolon => .last (.more e comma s) semicolon
  | .more s semicolon rest => .more (.more e comma s) semicolon rest

/-- A statement cut at the commas at the places. -/
def OfStatement.regrouped (places : List Nat) (semicolon : Span) : OfStatement → OfProgram
  | .last e => .last (.last e) semicolon
  | .more e comma rest =>
    if comma.start ∈ places then .more (.last e) comma (rest.regrouped places semicolon)
    else (rest.regrouped places semicolon).extended e comma

/-- A program with each of its statements cut at the commas at the
places. -/
def OfProgram.regrouped (places : List Nat) : OfProgram → OfProgram
  | .last s semicolon => s.regrouped places semicolon
  | .more s semicolon rest => (s.regrouped places semicolon).append (rest.regrouped places)

/-- In front of the tokens of the program come those of the expression and
the comma. -/
theorem OfProgram.yield_extended (e : OfExpression) (comma : Span) (d : OfProgram) :
    (d.extended e comma).yield = e.yield ++ ⟨.comma, .symbol ',', comma⟩ :: d.yield := by
  cases d with
  | last s semicolon => exact List.append_assoc ..
  | more s semicolon rest => exact List.append_assoc ..

theorem OfProgram.depth_extended (e : OfExpression) (comma : Span) (d : OfProgram) :
    (d.extended e comma).depth = max e.depth d.depth := by
  cases d with
  | last s semicolon => rfl
  | more s semicolon rest => exact Nat.max_assoc ..

theorem OfProgram.flatten_extended (e : OfExpression) (comma : Span) (d : OfProgram) :
    (d.extended e comma).statements.flatten = e.tree :: d.statements.flatten := by
  cases d <;> rfl

/-- The tokens of a statement with some commas as semicolons are those of
the statement that is cut there. -/
theorem OfStatement.yield_regrouped (places : List Nat) (semicolon : Span) (s : OfStatement)
    (ts : List Token) :
    outerSemicolonsAt places 0 (s.yield ++ ⟨.semicolon, .symbol ';', semicolon⟩ :: ts)
      = (s.regrouped places semicolon).yield ++ outerSemicolonsAt places 0 ts := by
  cases s with
  | last e =>
    rw [OfStatement.yield, e.kept (Int.le_refl 0)]
    show e.yield ++ _ = e.yield ++ [_] ++ _
    rw [outerSemicolonsAt, if_neg nofun, List.append_assoc]
    rfl
  | more e comma rest =>
    have ih := rest.yield_regrouped places semicolon ts
    rw [OfStatement.yield, List.append_assoc, e.kept (Int.le_refl 0), List.cons_append]
    show e.yield ++ _ :: outerSemicolonsAt places 0 (rest.yield ++ _) = _
    rw [ih, if_pos ⟨rfl, rfl⟩, Token.semicolonAt, OfStatement.regrouped]
    split
    · show _ = e.yield ++ _ :: (rest.regrouped places semicolon).yield ++ _
      rw [List.append_assoc]
      rfl
    · rw [OfProgram.yield_extended, List.append_assoc, List.cons_append]

theorem OfStatement.depth_regrouped (semicolon : Span) (s : OfStatement) :
    (s.regrouped places semicolon).depth = s.depth := by
  cases s with
  | last e => rfl
  | more e comma rest =>
    rw [OfStatement.regrouped, OfStatement.depth, ← rest.depth_regrouped semicolon]
    split
    · rfl
    · exact OfProgram.depth_extended ..

/-- A statement has the same expressions when some of its commas are
semicolons. -/
theorem OfStatement.flatten_regrouped (semicolon : Span) (s : OfStatement) :
    (s.regrouped places semicolon).statements.flatten = s.trees := by
  cases s with
  | last e => rfl
  | more e comma rest =>
    rw [OfStatement.regrouped, OfStatement.trees, ← rest.flatten_regrouped semicolon]
    split
    · rfl
    · exact OfProgram.flatten_extended ..

/-- The tokens of a program with some commas as semicolons are those of the
program with its statements cut there. -/
theorem OfProgram.yield_regrouped (d : OfProgram) :
    outerSemicolonsAt places 0 d.yield = (d.regrouped places).yield := by
  induction d with
  | last s semicolon =>
    have hstatement := s.yield_regrouped places semicolon []
    rwa [outerSemicolonsAt, List.append_nil] at hstatement
  | more s semicolon rest ih =>
    rw [OfProgram.yield, s.yield_regrouped, ih, OfProgram.regrouped, OfProgram.yield_append]

/-- Cutting statements changes nothing in how deep a program is. -/
theorem OfProgram.depth_regrouped (d : OfProgram) : (d.regrouped places).depth = d.depth := by
  induction d with
  | last s semicolon => exact s.depth_regrouped semicolon
  | more s semicolon rest ih =>
    rw [OfProgram.regrouped, OfProgram.depth_append, s.depth_regrouped, ih, OfProgram.depth]

/-- Each statement of a program becomes a group of those of the other,
which has the same expressions as the statement. -/
theorem OfProgram.exists_groups (places : List Nat) (d : OfProgram) :
    ∃ groups : List (List Statement), groups.map List.flatten = d.statements ∧
      groups.flatten = (d.regrouped places).statements := by
  induction d with
  | last s semicolon =>
    refine ⟨[(s.regrouped places semicolon).statements], ?_, List.append_nil _⟩
    exact congrArg (fun trees => [trees]) (s.flatten_regrouped semicolon)
  | more s semicolon rest ih =>
    obtain ⟨groups, hmap, hflatten⟩ := ih
    refine ⟨(s.regrouped places semicolon).statements :: groups, ?_, ?_⟩
    · rw [List.map_cons, s.flatten_regrouped, hmap]
      rfl
    · have happend := OfProgram.tree_append (s.regrouped places semicolon) (rest.regrouped places)
      rw [List.flatten_cons, hflatten]
      exact (congrArg Program.statements happend).symm

/-- The expressions of a program are those of the program that is cut. -/
theorem OfProgram.flatten_regrouped (places : List Nat) (d : OfProgram) :
    (d.regrouped places).statements.flatten = d.statements.flatten := by
  obtain ⟨groups, hmap, hflatten⟩ := d.exists_groups places
  rw [← hflatten, ← hmap, List.flatten_flatten]

end Derivation

end Reckoner
