/-
A place in a source text, as byte offsets into its UTF-8 form.
-/

namespace Reckoner

/-- The bytes from `start` up to but not including `stop`. -/
structure Span where
  start : Nat
  stop : Nat
deriving DecidableEq, Inhabited

namespace Span

/-- The empty span at an offset. -/
def point (offset : Nat) : Span := ⟨offset, offset⟩

/-- The part of a span that lies within the first `length` bytes; what
lies beyond shrinks to the end. -/
def clamp (s : Span) (length : Nat) : Span :=
  let start := min s.start length
  ⟨start, max start (min s.stop length)⟩

/-- The span moved to the right. -/
def shift (s : Span) (distance : Nat) : Span := ⟨s.start + distance, s.stop + distance⟩

/-- A clamped span is a range of existing bytes. -/
theorem clamp_valid (s : Span) (length : Nat) :
    (s.clamp length).start ≤ (s.clamp length).stop ∧ (s.clamp length).stop ≤ length := by
  simp only [clamp]; omega

/-- Clamping changes nothing that already lies within the bytes. -/
theorem clamp_of_valid {s : Span} {length : Nat} (ordered : s.start ≤ s.stop)
    (bounded : s.stop ≤ length) : s.clamp length = s := by
  simp only [clamp]
  cases s
  simp only [mk.injEq] at *
  omega

end Span

end Reckoner
