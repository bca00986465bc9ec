/-
Texts cut at byte offsets. A text that is stored as bytes is cut at
offsets, and a cut inside a character has no result. Where there is one,
it is the cut of the characters: the offset is the length of a front part.
-/
import Reckoner.Text.Bytes

namespace Reckoner.Text

/-- The two sides of a byte offset, if no character lies across it. -/
def cut? : List Char → Nat → Option (List Char × List Char)
  | cs, 0 => some ([], cs)
  | [], _ + 1 => none
  | c :: cs, n + 1 =>
    if c.utf8Size ≤ n + 1 then
      (cut? cs (n + 1 - c.utf8Size)).map fun sides => (c :: sides.1, sides.2)
    else none

/-- A cut is possible where the offset is the length of a front part. -/
theorem cut?_eq_some_iff {cs front rest : List Char} {n : Nat} :
    cut? cs n = some (front, rest) ↔ cs = front ++ rest ∧ byteLength front = n := by
  induction cs, n using cut?.induct generalizing front with
  | case1 cs =>
    rw [cut?, Option.some.injEq, Prod.mk.injEq]
    constructor
    · rintro ⟨rfl, rfl⟩
      exact ⟨rfl, rfl⟩
    · rintro ⟨rfl, hlength⟩
      obtain rfl := byteLength_eq_zero_iff.1 hlength
      exact ⟨rfl, rfl⟩
  | case2 n =>
    rw [cut?]
    refine ⟨fun h => (by cases h), ?_⟩
    rintro ⟨hnil, hlength⟩
    obtain ⟨rfl, -⟩ := List.append_eq_nil_iff.1 hnil.symm
    cases hlength
  | case3 c cs n hfits ih =>
    rw [cut?, if_pos hfits]
    constructor
    · intro h
      obtain ⟨⟨front', rest'⟩, hcut, hpair⟩ := Option.map_eq_some_iff.1 h
      obtain ⟨rfl, rfl⟩ := Prod.mk.injEq .. ▸ hpair
      obtain ⟨rfl, hlength⟩ := ih.1 hcut
      refine ⟨rfl, ?_⟩
      rw [byteLength_cons, hlength]
      omega
    · rintro ⟨hcs, hlength⟩
      cases front with
      | nil => cases hlength
      | cons c' front =>
        obtain ⟨rfl, rfl⟩ := List.cons.inj hcs
        rw [byteLength_cons] at hlength
        rw [ih.2 ⟨rfl, by omega⟩]
        rfl
  | case4 c cs n hfits =>
    rw [cut?, if_neg hfits]
    refine ⟨fun h => (by cases h), ?_⟩
    rintro ⟨hcs, hlength⟩
    cases front with
    | nil => cases hlength
    | cons c' front =>
      obtain ⟨rfl, rfl⟩ := List.cons.inj hcs
      rw [byteLength_cons] at hlength
      omega

/-- What lies between two byte offsets, if no character lies across one of
them and they are in order. -/
def slice? (cs : List Char) (start stop : Nat) : Option (List Char) :=
  (cut? cs stop).bind fun sides => (cut? sides.1 start).map fun sides => sides.2

/-- Between the ends of two front parts is what the longer one has more. -/
theorem slice?_append (front slice back : List Char) :
    slice? (front ++ slice ++ back) (byteLength front) (byteLength (front ++ slice))
      = some slice := by
  have houter : cut? (front ++ slice ++ back) (byteLength (front ++ slice))
      = some (front ++ slice, back) := cut?_eq_some_iff.2 ⟨rfl, rfl⟩
  have hinner : cut? (front ++ slice) (byteLength front) = some (front, slice) :=
    cut?_eq_some_iff.2 ⟨rfl, rfl⟩
  rw [slice?, houter, Option.bind_some, hinner]
  rfl

end Reckoner.Text
