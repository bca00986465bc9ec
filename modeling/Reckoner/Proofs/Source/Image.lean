/-
Which programs are read from sources. Two things are true of them. What
their leaves say could stand in a source, and no row in them is empty;
and operands are bound tighter than what they are operands of. The second
is a matter of ranks: each rule of the grammar makes trees up to a rank,
and a tree of a higher rank is an operand only between parentheses, which
are a node of their own.

Nothing else is true of them all. A tree of which both hold has a
derivation, made along the tree from the rule of each node's rank, and
the words of a derivation make a source if a space is put behind each.
-/
import Reckoner.Proofs.Printing.Reparse

namespace Reckoner

open Reckoner.Derivation Lexer

-- =============================================================== ranks

/-- How loose an operator binds. -/
def Operator.rank (op : Operator) : Nat := if op.isAdditive then 2 else 1

theorem Operator.rank_le (op : Operator) : op.rank ≤ 2 := by
  unfold rank
  split <;> decide

/-- How loose the outermost part of an expression binds: primaries not at
all, then products, sums and choices. -/
def Expr.rank : Expr → Nat
  | .conditional _ _ _ => 3
  | .binary op _ _ => op.rank
  | _ => 0

/-- There are four ranks. -/
theorem Expr.rank_le (e : Expr) : e.rank ≤ 3 := by
  cases e with
  | binary op left right => exact Nat.le_succ_of_le op.rank_le
  | conditional condition whenTrue whenFalse => exact Nat.le_refl 3
  | _ => exact Nat.zero_le 3

mutual

/-- Are operands bound tighter than what they are operands of? Operators
group to the right, so a right operand may bind like its operator. -/
def Expr.Arranged : Expr → Prop
  | .number _ | .text _ | .identifier _ => True
  | .binary op left right =>
    (left.rank < op.rank ∧ right.rank ≤ op.rank) ∧ left.Arranged ∧ right.Arranged
  | .conditional condition whenTrue whenFalse =>
    (condition.rank < 3 ∧ whenTrue.rank < 3 ∧ whenFalse.rank < 3) ∧
      condition.Arranged ∧ whenTrue.Arranged ∧ whenFalse.Arranged
  | .call _ arguments => Expr.AllArranged arguments
  | .group statement => Expr.AllArranged statement

/-- Every expression of a row is arranged. -/
def Expr.AllArranged : List Expr → Prop
  | [] => True
  | e :: rest => e.Arranged ∧ Expr.AllArranged rest

end

/-- Every expression of a program is arranged. -/
def Program.Arranged (p : Program) : Prop := ∀ s ∈ p.statements, Expr.AllArranged s

-- =================================================== derivations have ranks

namespace Derivation

mutual

/-- The tree of a derivation is arranged. This is shown for each kind of
phrase. -/
theorem OfExpression.arranged (d : OfExpression) : d.tree.Arranged := by
  cases d with
  | plain body => exact body.arranged.2
  | choice condition question whenTrue colon whenFalse =>
    obtain ⟨hcrank, hc⟩ := condition.arranged
    obtain ⟨harank, ha⟩ := whenTrue.arranged
    obtain ⟨hbrank, hb⟩ := whenFalse.arranged
    exact ⟨⟨by omega, by omega, by omega⟩, hc, ha, hb⟩

theorem OfSum.arranged (d : OfSum) : d.tree.rank ≤ 2 ∧ d.tree.Arranged := by
  cases d with
  | single operand =>
    obtain ⟨hrank, harranged⟩ := operand.arranged
    exact ⟨Nat.le_succ_of_le hrank, harranged⟩
  | joined left op additive place right =>
    obtain ⟨hlrank, hl⟩ := left.arranged
    obtain ⟨hrrank, hr⟩ := right.arranged
    have hop : op.rank = 2 := if_pos additive
    refine ⟨op.rank_le, ⟨?_, ?_⟩, hl, hr⟩ <;> omega

theorem OfProduct.arranged (d : OfProduct) : d.tree.rank ≤ 1 ∧ d.tree.Arranged := by
  cases d with
  | single operand =>
    obtain ⟨hrank, harranged⟩ := operand.arranged
    exact ⟨hrank.symm ▸ Nat.zero_le 1, harranged⟩
  | joined left op multiplicative place right =>
    obtain ⟨hlrank, hl⟩ := left.arranged
    obtain ⟨hrrank, hr⟩ := right.arranged
    have hop : op.rank = 1 := if_neg (Bool.eq_false_iff.1 multiplicative)
    refine ⟨Nat.le_of_eq hop, ⟨?_, ?_⟩, hl, hr⟩ <;> omega

theorem OfPrimary.arranged (d : OfPrimary) : d.tree.rank = 0 ∧ d.tree.Arranged := by
  cases d with
  | number value place => exact ⟨rfl, trivial⟩
  | text content place => exact ⟨rfl, trivial⟩
  | identifier name place => exact ⟨rfl, trivial⟩
  | bareCall name place opening closing => exact ⟨rfl, trivial⟩
  | call name place opening arguments closing => exact ⟨rfl, arguments.arranged⟩
  | group opening body closing => exact ⟨rfl, body.arranged⟩

theorem OfStatement.arranged (d : OfStatement) : Expr.AllArranged d.trees := by
  cases d with
  | last e => exact ⟨e.arranged, trivial⟩
  | more e comma rest => exact ⟨e.arranged, rest.arranged⟩

end

/-- In what is read, operands are bound tighter than what they are operands
of. -/
theorem OfProgram.arranged (d : OfProgram) : d.tree.Arranged := by
  show ∀ s ∈ d.statements, Expr.AllArranged s
  induction d with
  | last s semicolon =>
    intro s' hs'
    obtain rfl := List.mem_singleton.1 hs'
    exact s.arranged
  | more s semicolon rest ih =>
    intro s' hs'
    rcases List.mem_cons.1 hs' with rfl | hs'
    · exact s.arranged
    · exact ih s' hs'

-- ============================================ from trees to derivations

namespace FromSource

variable {front back : List Token} {kind : TokenKind} {sign : Char} {place : Span}

theorem sign_cons (h : TokenKind.ofSymbol? sign = some kind) (hback : FromSource back) :
    FromSource (⟨kind, .symbol sign, place⟩ :: back) := by
  intro t ht
  rcases List.mem_cons.1 ht with rfl | ht
  · cases kind <;> exact h
  · exact hback t ht

/-- Words from a source go on with words from a source. -/
theorem append (hfront : FromSource front) (hback : FromSource back) :
    FromSource (front ++ back) :=
  fun t ht => (List.mem_append.1 ht).elim (hfront t) (hback t)

theorem one {payload : Payload} (h : Lexical (kind, payload)) :
    FromSource [⟨kind, payload, place⟩] := by
  intro t ht
  obtain rfl := List.mem_singleton.1 ht
  exact h

end FromSource

end Derivation

/-- Does the rule for trees up to this rank derive the expression, from
words that a source can have? -/
def Expr.Derives (e : Expr) : Nat → Prop
  | 0 => ∃ d : OfPrimary, d.tree = e ∧ FromSource d.yield
  | 1 => ∃ d : OfProduct, d.tree = e ∧ FromSource d.yield
  | 2 => ∃ d : OfSum, d.tree = e ∧ FromSource d.yield
  | _ => ∃ d : OfExpression, d.tree = e ∧ FromSource d.yield

/-- The same for a row of expressions and the rule for statements. -/
def Expr.DerivesAll (row : List Expr) : Prop :=
  ∃ d : OfStatement, d.trees = row ∧ FromSource d.yield

namespace Expr

variable {e : Expr}

/-- Each rule passes on what the one below it derives. -/
theorem Derives.succ {rank : Nat} (h : e.Derives rank) : e.Derives (rank + 1) := by
  match rank with
  | 0 =>
    obtain ⟨d, htree, hyield⟩ := h
    exact ⟨.single d, htree, hyield⟩
  | 1 =>
    obtain ⟨d, htree, hyield⟩ := h
    exact ⟨.single d, htree, hyield⟩
  | 2 =>
    obtain ⟨d, htree, hyield⟩ := h
    exact ⟨.plain d, htree, hyield⟩
  | _ + 3 => exact h

/-- A tree that is derived as an operand of some rank is one of each higher
rank. -/
theorem Derives.mono {rank rank' : Nat} (h : e.Derives rank) (hle : rank ≤ rank') :
    e.Derives rank' := by
  induction hle with
  | refl => exact h
  | step _ ih => exact ih.succ

/-- Of an operation the operands are derived from the rules that its own
rule names. -/
theorem derives_binary {op : Operator} {left right : Expr} (hleft : left.Derives (op.rank - 1))
    (hright : right.Derives op.rank) : (Expr.binary op left right).Derives op.rank := by
  have hsign := TokenKind.ofSymbol?_symbol op
  by_cases hadditive : op.isAdditive = true
  · rw [Operator.rank, if_pos hadditive] at hleft hright ⊢
    obtain ⟨l, rfl, hlyield⟩ := hleft
    obtain ⟨r, rfl, hryield⟩ := hright
    exact ⟨.joined l op hadditive default r, rfl, hlyield.append (hryield.sign_cons hsign)⟩
  · rw [Operator.rank, if_neg hadditive] at hleft hright ⊢
    obtain ⟨l, rfl, hlyield⟩ := hleft
    obtain ⟨r, rfl, hryield⟩ := hright
    exact ⟨.joined l op (Bool.eq_false_iff.2 hadditive) default r, rfl,
      hlyield.append (hryield.sign_cons hsign)⟩

theorem derives_conditional {condition whenTrue whenFalse : Expr} (hc : condition.Derives 2)
    (ha : whenTrue.Derives 2) (hb : whenFalse.Derives 2) :
    (Expr.conditional condition whenTrue whenFalse).Derives 3 := by
  obtain ⟨c, rfl, hcyield⟩ := hc
  obtain ⟨a, rfl, hayield⟩ := ha
  obtain ⟨b, rfl, hbyield⟩ := hb
  exact ⟨.choice c default a default b, rfl,
    hcyield.append (.sign_cons rfl (hayield.append (hbyield.sign_cons rfl)))⟩

mutual

/-- A tree of literals with its operands in place is derived from the rule
of its rank. -/
theorem derives_rank (e : Expr) (hlegible : e.Legible) (harranged : e.Arranged) :
    e.Derives e.rank := by
  cases e with
  | number x => exact ⟨.number x default, rfl, .one hlegible⟩
  | text s =>
    exact ⟨.text s default, rfl, .one (Printer.exists_quotes_iff.1 hlegible)⟩
  | identifier name =>
    exact ⟨.identifier name default, rfl, .one hlegible⟩
  | binary op left right =>
    obtain ⟨⟨hlrank, hrrank⟩, hl, hr⟩ := harranged
    apply derives_binary
    · exact (left.derives_rank hlegible.1 hl).mono (by omega)
    · exact (right.derives_rank hlegible.2 hr).mono hrrank
  | conditional condition whenTrue whenFalse =>
    obtain ⟨⟨hcrank, harank, hbrank⟩, hc, ha, hb⟩ := harranged
    apply derives_conditional
    · exact (condition.derives_rank hlegible.1 hc).mono (by omega)
    · exact (whenTrue.derives_rank hlegible.2.1 ha).mono (by omega)
    · exact (whenFalse.derives_rank hlegible.2.2 hb).mono (by omega)
  | call name arguments =>
    have hname : Lexical (.identifier, .text name) := hlegible.1
    cases arguments with
    | nil =>
      exact ⟨.bareCall name default default default, rfl,
        (FromSource.one hname).append (.sign_cons rfl (.sign_cons rfl nofun))⟩
    | cons first rest =>
      obtain ⟨d, htrees, hyield⟩ :=
        derivesAll (first :: rest) (List.cons_ne_nil first rest) hlegible.2 harranged
      refine ⟨.call name default default d default, congrArg (Expr.call name) htrees, ?_⟩
      exact (FromSource.one hname).append (.sign_cons rfl (hyield.append (.sign_cons rfl nofun)))
  | group statement =>
    obtain ⟨d, htrees, hyield⟩ := derivesAll statement hlegible.1 hlegible.2 harranged
    refine ⟨.group default d default, congrArg Expr.group htrees, ?_⟩
    exact .sign_cons rfl (hyield.append (.sign_cons rfl nofun))

theorem derivesAll (row : List Expr) (hnonempty : row ≠ []) (hlegible : AllLegible row)
    (harranged : AllArranged row) : DerivesAll row := by
  match row with
  | [] => exact absurd rfl hnonempty
  | [e] =>
    obtain ⟨d, rfl, hyield⟩ := (e.derives_rank hlegible.1 harranged.1).mono e.rank_le
    exact ⟨.last d, rfl, hyield⟩
  | e :: e' :: rest =>
    obtain ⟨d, rfl, hyield⟩ := (e.derives_rank hlegible.1 harranged.1).mono e.rank_le
    obtain ⟨ds, htrees, hyields⟩ :=
      derivesAll (e' :: rest) (List.cons_ne_nil e' rest) hlegible.2 harranged.2
    refine ⟨.more d default ds, congrArg (d.tree :: ·) htrees, ?_⟩
    exact hyield.append (hyields.sign_cons rfl)

end

end Expr

/-- So is a program of such trees from the rules of the grammar. -/
theorem Program.exists_ofProgram {p : Program} (hlegible : p.Legible) (harranged : p.Arranged) :
    ∃ d : OfProgram, d.tree = p ∧ FromSource d.yield := by
  obtain ⟨ss⟩ := p
  obtain ⟨hnonempty, hlegible⟩ := hlegible
  suffices ∃ d : OfProgram, d.statements = ss ∧ FromSource d.yield by
    obtain ⟨d, rfl, hyield⟩ := this
    exact ⟨d, rfl, hyield⟩
  induction ss with
  | nil => exact absurd rfl hnonempty
  | cons s ss ih =>
    obtain ⟨hs, hslegible⟩ := hlegible s List.mem_cons_self
    obtain ⟨d, rfl, hyield⟩ :=
      Expr.derivesAll s hs hslegible (harranged s List.mem_cons_self)
    cases ss with
    | nil => exact ⟨.last d default, rfl, hyield.append (.sign_cons rfl nofun)⟩
    | cons s' ss =>
      obtain ⟨ds, hstatements, hyields⟩ := ih
        (fun s hs => harranged s (List.mem_cons_of_mem _ hs)) (List.cons_ne_nil s' ss)
        (fun s hs => hlegible s (List.mem_cons_of_mem _ hs))
      exact ⟨.more d default ds, congrArg (d.trees :: ·) hstatements,
        hyield.append (hyields.sign_cons rfl)⟩

-- ================================================= from words to sources

/-- Each word that a source can have is that of some text. -/
theorem Lexer.Lexical.exists_reads {word : Word} (h : Lexical word) : ∃ cs, Reads cs [word] := by
  obtain ⟨kind, payload⟩ := word
  cases payload with
  | number x =>
    obtain rfl : kind = .number := by cases kind <;> first | rfl | cases h
    cases x with
    | nan => exact ⟨_, .nan⟩
    | signed negative m =>
      obtain rfl : negative = false := h
      exact ⟨_, .magnitude m⟩
  | text s =>
    cases kind with
    | string =>
      obtain ⟨quote, hquote, hmem⟩ := h
      have hreads := Reads.string hquote hmem
      rw [String.ofList_toList] at hreads
      exact ⟨_, hreads⟩
    | identifier => exact ⟨_, .name h⟩
    | _ => cases h
  | symbol c =>
    refine ⟨[c], .sign ?_⟩
    cases kind <;> exact h

/-- With a space behind each, such words are a source. -/
theorem Derivation.FromSource.exists_spells {tokens : List Token} (h : FromSource tokens) :
    ∃ cs, Spells cs tokens := by
  induction tokens with
  | nil => exact ⟨[], .nil⟩
  | cons t tokens ih =>
    obtain ⟨front, hfront⟩ := h.head.exists_reads
    obtain ⟨back, hback⟩ := ih h.tail
    exact ⟨front ++ ' ' :: back, hfront.append_parts (by decide) hback.cons_space⟩

-- ============================================================ the image

/-- Programs are read from sources exactly if their leaves are literals,
none of their rows is empty, and operands are bound tighter than what they
are operands of. -/
theorem Program.exists_source_iff (p : Program) :
    (∃ source tokens limit, tokenize source = .ok tokens ∧
      Program.ofTokens limit tokens = .ok p) ↔ p.Legible ∧ p.Arranged := by
  constructor
  · rintro ⟨source, tokens, limit, htokens, hread⟩
    have hparse : (Engine.mk limit 0).parse source = .ok p :=
      Engine.parse_eq_ok_iff.2 ⟨tokens, htokens, hread⟩
    obtain ⟨d, hsource, rfl, -⟩ := Engine.exists_derivation hparse
    exact ⟨d.legible hsource, d.arranged⟩
  · rintro ⟨hlegible, harranged⟩
    obtain ⟨d, rfl, hsource⟩ := Program.exists_ofProgram hlegible harranged
    obtain ⟨cs, hspells⟩ := hsource.exists_spells
    have hspells : Spells (String.ofList cs).toList d.yield := by rwa [String.toList_ofList]
    have hparse := (Engine.parse_of_spells hspells ⟨d.depth, 0⟩).1 (Nat.le_refl _)
    obtain ⟨tokens, htokens, hread⟩ := Engine.parse_eq_ok_iff.1 hparse
    exact ⟨_, tokens, _, htokens, hread⟩

end Reckoner
