/-
The phrases of the grammar, one behind the other. A rule of the parser
reads a phrase by reading smaller ones in a row, so a production is taken
here as a row of phrases that makes up another one. With that, what a rule
has read is told by the row of phrases it has read, and what it is about to
read by the row that is left of the production.

Two statements follow a rule along its tokens. One is that a phrase was
taken from the front: the front is the yield of a derivation that builds
the answer and fits the level. The other is that a phrase is awaited:
behind the tokens taken so far, whatever can be derived as this phrase goes
on to be the beginning of a program. Where a row is awaited and its first
phrase is taken, the rest of the row is awaited.

Both speak of derivations only if the tokens agree with themselves.
-/
import Reckoner.Proofs.Grammar.Next

namespace Reckoner

open Reckoner.Parser

namespace Derivation

variable {δ ε α β : Type}

-- =========================================================== beginnings

/-- Tokens that one of these begins with, given what each of them
yields. -/
def Begun {δ : Type} (yield : δ → List Token) (front : List Token) : Prop :=
  ∃ d, front <+: yield d

-- What comes after a beginning may be anything, so each kind of phrase has
-- something that can stand for it.

instance : Inhabited OfPrimary := ⟨.text "" default⟩
instance : Inhabited OfProduct := ⟨.single default⟩
instance : Inhabited OfSum := ⟨.single default⟩
instance : Inhabited OfExpression := ⟨.plain default⟩
instance : Inhabited OfStatement := ⟨.last default⟩
instance : Inhabited OfProgram := ⟨.last default default⟩

section Begun

variable {yield : δ → List Token} {yield' : ε → List Token} {front : List Token}

/-- What a beginning begins with is a beginning. -/
theorem Begun.of_append {back : List Token} (h : Begun yield (front ++ back)) :
    Begun yield front := by
  obtain ⟨d, hd⟩ := h
  exact ⟨d, (List.prefix_append front back).trans hd⟩

/-- The beginning of the first part is one of the whole. -/
theorem Begun.first (h : Begun yield front) (whole : δ → ε)
    (hwhole : ∀ d, yield d <+: yield' (whole d)) : Begun yield' front := by
  obtain ⟨d, hd⟩ := h
  exact ⟨whole d, hd.trans (hwhole d)⟩

/-- The beginning of a later part is one of the whole, behind what the
whole begins with. -/
theorem Begun.behind (before : List Token) (h : Begun yield front) (whole : δ → ε)
    (hwhole : ∀ d, before ++ yield d <+: yield' (whole d)) : Begun yield' (before ++ front) := by
  obtain ⟨d, hd⟩ := h
  exact ⟨whole d, ((List.prefix_append_right_inj before).2 hd).trans (hwhole d)⟩

end Begun

-- ============================================================== phrases

/-- A kind of phrase, given by its derivations: the tokens that one yields,
what it builds, and how deep it nests. -/
structure Phrase (δ α : Type) where
  yield : δ → List Token
  tree : δ → α
  depth : δ → Nat

namespace Phrase

/-- Derivations of an expression, with the levels they need. -/
def expression : Phrase OfExpression Expr :=
  ⟨OfExpression.yield, OfExpression.tree, OfExpression.depth⟩

def sum : Phrase OfSum Expr := ⟨OfSum.yield, OfSum.tree, OfSum.depth⟩

def product : Phrase OfProduct Expr := ⟨OfProduct.yield, OfProduct.tree, OfProduct.depth⟩

def primary : Phrase OfPrimary Expr := ⟨OfPrimary.yield, OfPrimary.tree, OfPrimary.depth⟩

/-- Derivations of a statement. -/
def statement : Phrase OfStatement Statement :=
  ⟨OfStatement.yield, OfStatement.trees, OfStatement.depth⟩

/-- Derivations of the statements of a program. -/
def program : Phrase OfProgram (List Statement) :=
  ⟨OfProgram.yield, OfProgram.statements, OfProgram.depth⟩

/-- A statement between the parentheses of a call, or nothing. -/
def arguments : Phrase (Option OfStatement) (List Expr) where
  yield row := row.elim [] OfStatement.yield
  tree row := row.elim [] OfStatement.trees
  depth row := row.elim 0 OfStatement.depth

/-- One token, which is known but for its place. -/
def token (kind : TokenKind) (payload : Payload) : Phrase Span Unit where
  yield place := [⟨kind, payload, place⟩]
  tree _ := ()
  depth _ := 0

/-- The token of a sign. -/
def sign (kind : TokenKind) (c : Char) : Phrase Span Unit := token kind (.symbol c)

/-- One phrase behind another. -/
def seq (p : Phrase δ α) (q : Phrase ε β) : Phrase (δ × ε) (α × β) where
  yield d := p.yield d.1 ++ q.yield d.2
  tree d := (p.tree d.1, q.tree d.2)
  depth d := max (p.depth d.1) (q.depth d.2)

end Phrase

/-- Each phrase of the one kind is one of the other too, with so many more
levels. -/
structure Production (p : Phrase δ α) (q : Phrase ε β) (build : α → β) (levels : Nat) where
  make : δ → ε
  yield_make : ∀ d, q.yield (make d) = p.yield d
  tree_make : ∀ d, q.tree (make d) = build (p.tree d)
  depth_make : ∀ d, q.depth (make d) ≤ p.depth d + levels

namespace Production

open Phrase

/-- An expression can be a sum. -/
def plain : Production sum expression id 1 :=
  ⟨.plain, fun _ => rfl, fun _ => rfl, fun _ => Nat.le_refl _⟩

/-- A choice has two signs between its three sums. -/
def choice : Production
    (sum.seq ((sign .questionMark '?').seq (sum.seq ((sign .colon ':').seq sum)))) expression
    (fun (condition, _, whenTrue, _, whenFalse) => .conditional condition whenTrue whenFalse)
    1 where
  make := fun (condition, question, whenTrue, colon, whenFalse) =>
    .choice condition question whenTrue colon whenFalse
  yield_make _ := rfl
  tree_make _ := rfl
  depth_make := fun (condition, _, whenTrue, _, whenFalse) => by
    show max condition.depth (max whenTrue.depth whenFalse.depth) + 1
      ≤ max condition.depth (max 0 (max whenTrue.depth (max 0 whenFalse.depth))) + 1
    omega

/-- A sum can be a product. -/
def summand : Production product sum id 1 :=
  ⟨.single, fun _ => rfl, fun _ => rfl, fun _ => Nat.le_refl _⟩

/-- A sum with an operator has a sum behind it. -/
def additive (op : Operator) (h : op.isAdditive = true) : Production
    (product.seq ((sign .operator op.symbol).seq sum)) sum
    (fun (left, _, right) => .binary op left right) 1 where
  make := fun (left, place, right) => .joined left op h place right
  yield_make _ := rfl
  tree_make _ := rfl
  depth_make := fun (left, _, right) => by
    show max left.depth right.depth + 1 ≤ max left.depth (max 0 right.depth) + 1
    omega

/-- A product can be a primary. -/
def factor : Production primary product id 1 :=
  ⟨.single, fun _ => rfl, fun _ => rfl, fun _ => Nat.le_refl _⟩

/-- A product with an operator has a product behind it. -/
def multiplicative (op : Operator) (h : op.isAdditive = false) : Production
    (primary.seq ((sign .operator op.symbol).seq product)) product
    (fun (left, _, right) => .binary op left right) 1 where
  make := fun (left, place, right) => .joined left op h place right
  yield_make _ := rfl
  tree_make _ := rfl
  depth_make := fun (left, _, right) => by
    show max left.depth right.depth + 1 ≤ max left.depth (max 0 right.depth) + 1
    omega

/-- A primary can be a number. -/
def number (x : Binary64) : Production (token .number (.number x)) primary (fun _ => .number x) 0 :=
  ⟨.number x, fun _ => rfl, fun _ => rfl, fun _ => Nat.le_refl _⟩

/-- A primary can be a text. -/
def text (s : String) : Production (token .string (.text s)) primary (fun _ => .text s) 0 :=
  ⟨.text s, fun _ => rfl, fun _ => rfl, fun _ => Nat.le_refl _⟩

/-- A primary can be a name that no parenthesis follows. -/
def identifier (name : String) :
    Production (token .identifier (.text name)) primary (fun _ => .identifier name) 0 :=
  ⟨.identifier name, fun _ => rfl, fun _ => rfl, fun _ => Nat.le_refl _⟩

/-- A call with arguments or without. -/
def call (name : String) : Production
    ((token .identifier (.text name)).seq
      ((sign .parenthesis '(').seq (arguments.seq (sign .parenthesis ')')))) primary
    (fun (_, _, row, _) => .call name row) 0 where
  make := fun (place, opening, row, closing) =>
    row.elim (.bareCall name place opening closing) (.call name place opening · closing)
  yield_make := by rintro ⟨place, opening, _ | row, closing⟩ <;> rfl
  tree_make := by rintro ⟨place, opening, _ | row, closing⟩ <;> rfl
  depth_make := by
    rintro ⟨place, opening, _ | row, closing⟩
    · exact Nat.zero_le _
    · show row.depth ≤ max 0 (max 0 (max row.depth 0)) + 0
      omega

/-- A statement between parentheses. -/
def group : Production
    ((sign .parenthesis '(').seq (statement.seq (sign .parenthesis ')'))) primary
    (fun (_, row, _) => .group row) 0 where
  make := fun (opening, body, closing) => .group opening body closing
  yield_make _ := rfl
  tree_make _ := rfl
  depth_make := fun (_, body, _) => by
    show body.depth ≤ max 0 (max body.depth 0) + 0
    omega

/-- The arguments of a call can be a statement. -/
def given : Production statement arguments id 0 :=
  ⟨some, fun _ => rfl, fun _ => rfl, fun _ => Nat.le_refl _⟩

/-- A statement can be one expression. -/
def item : Production expression statement (fun e => [e]) 0 :=
  ⟨.last, fun _ => rfl, fun _ => rfl, fun _ => Nat.le_refl _⟩

/-- Behind a comma is the rest of a statement. -/
def items : Production (expression.seq ((sign .comma ',').seq statement)) statement
    (fun (e, _, row) => e :: row) 0 where
  make := fun (e, comma, row) => .more e comma row
  yield_make _ := rfl
  tree_make _ := rfl
  depth_make := fun (e, _, row) => by
    show max e.depth row.depth ≤ max e.depth (max 0 row.depth) + 0
    omega

/-- A program can be one statement with its semicolon. -/
def ended : Production (statement.seq (sign .semicolon ';')) program (fun (s, _) => [s]) 0 where
  make := fun (s, semicolon) => .last s semicolon
  yield_make _ := rfl
  tree_make _ := rfl
  depth_make := fun (s, _) => by
    show s.depth ≤ max s.depth 0 + 0
    omega

/-- Behind a semicolon is the rest of a program. -/
def more : Production (statement.seq ((sign .semicolon ';').seq program)) program
    (fun (s, _, ss) => s :: ss) 0 where
  make := fun (s, semicolon, rest) => .more s semicolon rest
  yield_make _ := rfl
  tree_make _ := rfl
  depth_make := fun (s, _, rest) => by
    show max s.depth rest.depth ≤ max s.depth (max 0 rest.depth) + 0
    omega

end Production

end Derivation

namespace Parser

open Reckoner.Derivation

variable {δ ε α β : Type} {p : Phrase δ α} {q : Phrase ε β} {tokens ts mid rest : List Token}
  {n : Nat}

-- ====================================================== what was taken

/-- From the front of `ts` the phrase was taken as `a`, in no more than `n`
levels. -/
def Takes (tokens : List Token) (p : Phrase δ α) (n : Nat) (ts : List Token) (a : α)
    (rest : List Token) : Prop :=
  ∃ front, ts = front ++ rest ∧
    (Agreeing tokens → ∃ d, p.yield d = front ∧ p.tree d = a ∧ p.depth d ≤ n)

namespace Takes

variable {a : α} {b : β}

/-- What is taken is not put back. -/
theorem length_le (h : Takes tokens p n ts a rest) : rest.length ≤ ts.length := by
  obtain ⟨front, rfl, -⟩ := h
  simp

/-- Two phrases taken one behind the other are taken as a row. -/
theorem seq (h : Takes tokens p n ts a mid) (h' : Takes tokens q n mid b rest) :
    Takes tokens (p.seq q) n ts (a, b) rest := by
  obtain ⟨front, rfl, hd⟩ := h
  obtain ⟨front', rfl, hd'⟩ := h'
  refine ⟨front ++ front', (List.append_assoc ..).symm, fun hagree => ?_⟩
  obtain ⟨d, rfl, rfl, hdepth⟩ := hd hagree
  obtain ⟨d', rfl, rfl, hdepth'⟩ := hd' hagree
  exact ⟨(d, d'), rfl, rfl, Nat.max_le.2 ⟨hdepth, hdepth'⟩⟩

/-- What is taken as the one side of a production is taken as the other. -/
theorem via {build : α → β} {levels : Nat} (h : Takes tokens p n ts a rest)
    (production : Production p q build levels) :
    Takes tokens q (n + levels) ts (build a) rest := by
  obtain ⟨front, rfl, hd⟩ := h
  refine ⟨front, rfl, fun hagree => ?_⟩
  obtain ⟨d, rfl, rfl, hdepth⟩ := hd hagree
  exact ⟨production.make d, production.yield_make d, production.tree_make d,
    Nat.le_trans (production.depth_make d) (Nat.add_le_add_right hdepth levels)⟩

/-- A call can have no arguments. -/
theorem noArguments : Takes tokens .arguments n ts [] ts :=
  ⟨[], rfl, fun _ => ⟨none, rfl, rfl, Nat.zero_le _⟩⟩

/-- The first token, taken for itself. -/
theorem token (t : Token) : Takes tokens (.token t.kind t.payload) n (t :: rest) () rest :=
  ⟨[t], rfl, fun _ => ⟨t.span, rfl, rfl, Nat.zero_le _⟩⟩

end Takes

-- ======================================================= what is awaited

/-- The tokens up to here begin a program. -/
def Reached (tokens ts : List Token) : Prop :=
  ∃ before, tokens = before ++ ts ∧ (Agreeing tokens → Begun OfProgram.yield before)

/-- The tokens up to here begin a program, whatever is put behind them
that can be derived as this phrase. -/
def Awaits (tokens : List Token) (p : Phrase δ α) (ts : List Token) : Prop :=
  ∃ before, tokens = before ++ ts ∧
    (Agreeing tokens → ∀ d, Begun OfProgram.yield (before ++ p.yield d))

/-- Tokens that are reached agree if all of them do. -/
theorem Reached.agreeing (h : Reached tokens ts) (hagree : Agreeing tokens) : Agreeing ts := by
  obtain ⟨before, rfl, -⟩ := h
  exact hagree.right

/-- A sign that is next can be taken as its token. -/
theorem Takes.sign {kind : TokenKind} {c : Char} (h : Reached tokens ts)
    (hnext : nextIs c ts = true) (hkind : TokenKind.ofSymbol? c = some kind) :
    Takes tokens (.sign kind c) n ts () ts.tail := by
  cases ts with
  | nil => cases hnext
  | cons t others =>
    refine ⟨[t], rfl, fun hagree => ?_⟩
    obtain ⟨place, ht⟩ := nextIs_sound (h.agreeing hagree) hnext hkind
    exact ⟨place, congrArg (· :: []) (List.cons.inj ht).1.symm, rfl, Nat.zero_le _⟩

/-- So can an operator. -/
theorem Takes.operator {op : Operator} (hop : nextOperator? ts = some op) :
    Takes tokens (.sign .operator op.symbol) n ts () ts.tail := by
  obtain ⟨place, hts⟩ := nextOperator?_sound hop
  exact ⟨[⟨.operator, .symbol op.symbol, place⟩], hts, fun _ => ⟨place, rfl, rfl, Nat.zero_le _⟩⟩

namespace Awaits

/-- Where a phrase is awaited the reader has come to. -/
theorem reached [Inhabited δ] (h : Awaits tokens p ts) : Reached tokens ts := by
  obtain ⟨before, rfl, hbegun⟩ := h
  exact ⟨before, rfl, fun hagree => (hbegun hagree default).of_append⟩

/-- Where a phrase is awaited, so is what it can be by a production. -/
theorem via {build : α → β} {levels : Nat} (h : Awaits tokens q ts)
    (production : Production p q build levels) : Awaits tokens p ts := by
  obtain ⟨before, rfl, hbegun⟩ := h
  refine ⟨before, rfl, fun hagree d => ?_⟩
  rw [← production.yield_make d]
  exact hbegun hagree (production.make d)

/-- Where a row is awaited, so is its first phrase. -/
theorem first [Inhabited ε] (h : Awaits tokens (p.seq q) ts) : Awaits tokens p ts := by
  obtain ⟨before, rfl, hbegun⟩ := h
  refine ⟨before, rfl, fun hagree d => ?_⟩
  have hboth : Begun OfProgram.yield (before ++ (p.yield d ++ q.yield default)) :=
    hbegun hagree (d, default)
  rw [← List.append_assoc] at hboth
  exact hboth.of_append

/-- Where a row is awaited and its first phrase is taken, the rest of the
row is awaited. -/
theorem next {a : α} (h : Awaits tokens (p.seq q) ts) (htaken : Takes tokens p n ts a rest) :
    Awaits tokens q rest := by
  obtain ⟨before, rfl, hbegun⟩ := h
  obtain ⟨front, rfl, hd⟩ := htaken
  refine ⟨before ++ front, (List.append_assoc ..).symm, fun hagree d' => ?_⟩
  obtain ⟨d, rfl, -⟩ := hd hagree
  have hboth : Begun OfProgram.yield (before ++ (p.yield d ++ q.yield d')) := hbegun hagree (d, d')
  rwa [← List.append_assoc] at hboth

/-- Where a phrase is awaited and taken, the tokens up to behind it begin a
program. -/
theorem taken {a : α} (h : Awaits tokens p ts) (htaken : Takes tokens p n ts a rest) :
    Reached tokens rest := by
  obtain ⟨before, rfl, hbegun⟩ := h
  obtain ⟨front, rfl, hd⟩ := htaken
  refine ⟨before ++ front, (List.append_assoc ..).symm, fun hagree => ?_⟩
  obtain ⟨d, rfl, -⟩ := hd hagree
  exact hbegun hagree d

end Awaits

/-- At the beginning a program is awaited. -/
theorem awaits_program (tokens : List Token) : Awaits tokens .program tokens :=
  ⟨[], rfl, fun _ d => ⟨d, List.prefix_rfl⟩⟩

end Parser

end Reckoner
