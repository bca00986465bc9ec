/-
How high a program is that was read. The tree of a derivation is bounded
by how deep the derivation nests: on a way down, a group is followed by
an expression, a sum and a product, three levels for at most four nodes.
Under the default limits, then, no program that is read is too high to be
evaluated.
-/
import Reckoner.Proofs.Evaluation.Meaning
import Reckoner.Proofs.Grammar.Derivation

namespace Reckoner.Derivation

-- Four nodes to three levels; what a part lacks of a whole turn of the
-- rules is what its bound is lower by.

mutual

/-- An expression falls short of its bound by four, which is for a group
around it. -/
theorem OfExpression.height_le (d : OfExpression) : 3 * d.tree.height + 4 ≤ 4 * d.depth := by
  cases d with
  | plain body =>
    obtain ⟨hheight, _⟩ := body.height_le
    rw [OfExpression.tree, OfExpression.depth]
    omega
  | choice condition question whenTrue colon whenFalse =>
    obtain ⟨hc, _⟩ := condition.height_le
    obtain ⟨ha, _⟩ := whenTrue.height_le
    obtain ⟨hb, _⟩ := whenFalse.height_le
    rw [OfExpression.tree, OfExpression.depth, Expr.height]
    omega

/-- A sum falls short by three. It is two levels at least, its own and that
of a product. -/
theorem OfSum.height_le (d : OfSum) : 3 * d.tree.height + 3 ≤ 4 * d.depth ∧ 2 ≤ d.depth := by
  cases d with
  | single operand =>
    obtain ⟨hheight, hdepth⟩ := operand.height_le
    rw [OfSum.tree, OfSum.depth]
    omega
  | joined left op additive place right =>
    obtain ⟨hl, hldepth⟩ := left.height_le
    obtain ⟨hr, hrdepth⟩ := right.height_le
    rw [OfSum.tree, OfSum.depth, Expr.height]
    omega

/-- A product falls short by two, but for a literal, which is a node with no
level to pay for it but that of the product. -/
theorem OfProduct.height_le (d : OfProduct) :
    3 * d.tree.height ≤ max 3 (4 * d.depth - 2) ∧ 1 ≤ d.depth := by
  cases d with
  | single operand =>
    have hheight := operand.height_le
    rw [OfProduct.tree, OfProduct.depth]
    omega
  | joined left op multiplicative place right =>
    have hl := left.height_le
    obtain ⟨hr, hrdepth⟩ := right.height_le
    rw [OfProduct.tree, OfProduct.depth, Expr.height]
    omega

/-- A primary is no level. The node of a group or of a call takes three of the
four that the statement in it left. -/
theorem OfPrimary.height_le (d : OfPrimary) : 3 * d.tree.height ≤ max 3 (4 * d.depth - 1) := by
  cases d with
  | number value place => exact Nat.le_max_left ..
  | text content place => exact Nat.le_max_left ..
  | identifier name place => exact Nat.le_max_left ..
  | bareCall name place opening closing => exact Nat.le_max_left ..
  | call name place opening arguments closing =>
    have hrow := arguments.heightAll_le
    rw [OfPrimary.tree, OfPrimary.depth, Expr.height]
    omega
  | group opening body closing =>
    have hrow := body.heightAll_le
    rw [OfPrimary.tree, OfPrimary.depth, Expr.height]
    omega

/-- A row is as high as its highest expression and as deep as its
deepest. -/
theorem OfStatement.heightAll_le (d : OfStatement) :
    3 * Expr.heightAll d.trees + 4 ≤ 4 * d.depth := by
  cases d with
  | last e =>
    have he := e.height_le
    rw [OfStatement.trees, OfStatement.depth, Expr.heightAll, Expr.heightAll]
    omega
  | more e comma rest =>
    have he := e.height_le
    have hrest := rest.heightAll_le
    rw [OfStatement.trees, OfStatement.depth, Expr.heightAll]
    omega

end

/-- A tree has at most four nodes on a way down for every three levels of
its derivation. -/
theorem OfProgram.height_le (d : OfProgram) : 3 * d.tree.height + 4 ≤ 4 * d.depth := by
  show 3 * (d.statements.map Expr.heightAll).foldr max 0 + 4 ≤ _
  induction d with
  | last s semicolon =>
    have hs := s.heightAll_le
    show 3 * max (Expr.heightAll s.trees) 0 + 4 ≤ 4 * s.depth
    omega
  | more s semicolon rest ih =>
    have hs := s.heightAll_le
    rw [OfProgram.statements, OfProgram.depth, List.map_cons, List.foldr_cons]
    omega

end Reckoner.Derivation
