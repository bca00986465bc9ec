/-
The four operators that join two operands.
-/

namespace Reckoner

/-- An arithmetic operator. -/
inductive Operator where
  | add
  | sub
  | mul
  | div
deriving DecidableEq, Inhabited

namespace Operator

/-- The character that stands for an operator. -/
def symbol : Operator → Char
  | add => '+'
  | sub => '-'
  | mul => '*'
  | div => '/'

/-- The operator that a character stands for. -/
def ofSymbol? (c : Char) : Option Operator :=
  if c = '+' then some add
  else if c = '-' then some sub
  else if c = '*' then some mul
  else if c = '/' then some div
  else none

/-- Does the operator bind like addition, looser than the others? -/
def isAdditive : Operator → Bool
  | add | sub => true
  | mul | div => false

theorem ofSymbol?_eq_some_iff {c : Char} {op : Operator} :
    ofSymbol? c = some op ↔ c = op.symbol := by
  constructor
  · unfold ofSymbol?
    intro h
    repeat' split at h
    all_goals simp_all [symbol]
    all_goals subst h; rfl
  · rintro rfl
    cases op <;> rfl

end Operator

end Reckoner
