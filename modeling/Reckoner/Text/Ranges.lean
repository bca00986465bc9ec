/-
Classes of characters, given as the inclusive ranges of the scalar values
that belong to them. The tables in the modules beside this one are
properties of the Unicode character database. What can be shown is told
by version 17.0, and what joins and how wide it is by version 18.0, whose
characters thus keep their place in a line before they can be shown.
-/

namespace Reckoner.Text

/-- Inclusive ranges of scalar values, in increasing order. -/
abbrev Ranges := List (Nat × Nat)

/-- Does the character lie in one of the ranges? -/
def Ranges.contains (ranges : Ranges) (c : Char) : Bool :=
  ranges.any fun (first, last) => first ≤ c.toNat && c.toNat ≤ last

end Reckoner.Text
