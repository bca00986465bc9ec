/-
Double-precision numbers with every operation in plain integer
arithmetic, so that a statement about a number is a statement about
natural numbers and nothing has to be taken on trust.

The non-negative doubles form one increasing chain, from zero through
the subnormals and the normals up to infinity. A `Magnitude` is a place
in that chain: its `rank` is the bit pattern without the sign, so two
magnitudes compare as their ranks do and the neighbour above is the next
rank. What a magnitude is worth is a whole number of the smallest
subnormal, 2^-1074: `Magnitude.units`. All NaNs are one value, since no
program of this language can tell them apart.
-/

-- Powers of natural numbers are the core's own, whichever instance for
-- them a library imported beside this one prefers.
attribute [instance (high)] instPowNat
attribute [default_instance (high)] instPowNat

namespace Reckoner

-- ========================================================= magnitudes

/-- A non-negative double, infinity included, as its place in the chain
of all of them. -/
structure Magnitude where
  /-- The place in the chain, which is also the bit pattern. -/
  rank : Nat
  /-- The chain ends with infinity. -/
  rank_le : rank ≤ 2047 * 2 ^ 52
deriving DecidableEq

namespace Magnitude

/-- The first of the chain. -/
def zero : Magnitude := ⟨0, by decide⟩

/-- The last of the chain. -/
def infinity : Magnitude := ⟨2047 * 2 ^ 52, Nat.le_refl _⟩

instance : Inhabited Magnitude := ⟨zero⟩

/-- Is this the last of the chain? -/
def isInfinite (m : Magnitude) : Bool := m.rank == 2047 * 2 ^ 52

/-- Is this the first of the chain? -/
def isZero (m : Magnitude) : Bool := m.rank == 0

/-- The bits of a magnitude, of which only the lowest run, the
subnormals, lacks the implicit leading one. -/
def significand (m : Magnitude) : Nat :=
  if m.rank < 2 ^ 52 then m.rank else 2 ^ 52 + m.rank % 2 ^ 52

/-- How often the unit of the lowest run is doubled in the run of a
magnitude. Each run of 2^52 ranks covers one power of two, and the lowest
two share their unit. -/
def doublings (m : Magnitude) : Nat := m.rank / 2 ^ 52 - 1

/-- What a magnitude is worth, in units of 2^-1074. Infinity is worth the
power of two that it stands in for, 2^1024, which is where rounding
overflows. -/
def units (m : Magnitude) : Nat := m.significand * 2 ^ m.doublings

/-- The place of a rank, infinity if the chain has no such place. -/
def ofRank (rank : Nat) : Magnitude := ⟨min rank (2047 * 2 ^ 52), Nat.min_le_right _ _⟩

@[ext] theorem ext {a b : Magnitude} (h : a.rank = b.rank) : a = b := by
  cases a; cases b; simp_all

@[simp] theorem rank_zero : zero.rank = 0 := rfl

@[simp] theorem rank_infinity : infinity.rank = 2047 * 2 ^ 52 := rfl

@[simp] theorem ofRank_rank (m : Magnitude) : ofRank m.rank = m := by
  ext; exact Nat.min_eq_left m.rank_le

@[simp] theorem units_zero : zero.units = 0 := by decide

end Magnitude

-- ============================================================ numbers

/-- A double: a signed magnitude, or the one NaN. -/
inductive Binary64 where
  /-- The result of an operation without a result. -/
  | nan
  /-- A number with its sign; zero has one too. -/
  | signed (negative : Bool) (magnitude : Magnitude)
deriving DecidableEq, Inhabited

namespace Binary64

/-- Positive zero. -/
def zero : Binary64 := .signed false .zero

/-- Zero below, which differs from zero only as a divisor. -/
def negativeZero : Binary64 := .signed true .zero

/-- Positive infinity. -/
def infinity : Binary64 := .signed false .infinity

/-- Negative infinity. -/
def negativeInfinity : Binary64 := .signed true .infinity

/-- One, the first magnitude of the run that starts at 2^0. -/
def one : Binary64 := .signed false ⟨1023 * 2 ^ 52, by decide⟩

/-- Is it the one value that is no number? -/
def isNaN : Binary64 → Bool
  | .nan => true
  | .signed _ _ => false

/-- Is it a zero of either sign? -/
def isZero : Binary64 → Bool
  | .nan => false
  | .signed _ m => m.isZero

/-- Is it an infinity of either sign? -/
def isInfinite : Binary64 → Bool
  | .nan => false
  | .signed _ m => m.isInfinite

/-- Does it carry a minus sign, as negative zero does too? -/
def isNegative : Binary64 → Bool
  | .nan => false
  | .signed s _ => s

/-- Equality of numbers as the standard for floating point has it: the
two zeros are equal, and NaN differs from everything, itself included. -/
def equals : Binary64 → Binary64 → Bool
  | .signed s a, .signed t b => (a.isZero && b.isZero) || (s == t && a == b)
  | _, _ => false

-- =============================================== the interchange format

/-- The number with a given bit pattern: sign bit, then the rank. Every
pattern past infinity is a NaN. -/
def ofBits (bits : UInt64) : Binary64 :=
  let rank := bits.toNat % 2 ^ 63
  if h : rank ≤ 2047 * 2 ^ 52 then .signed (2 ^ 63 ≤ bits.toNat) ⟨rank, h⟩ else .nan

/-- The bit pattern of a number; NaN is the quiet one without payload. -/
def toBits : Binary64 → UInt64
  | .nan => 0x7FF8000000000000
  | .signed negative m => UInt64.ofNat ((if negative then 2 ^ 63 else 0) + m.rank)

end Binary64

end Reckoner
