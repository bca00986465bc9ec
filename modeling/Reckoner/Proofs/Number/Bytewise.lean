/-
Texts read by their bytes. What a text spells is said of its characters,
but a text that is stored as bytes is cut at offsets, and a cut inside a
character has no result. So the reading is done once more as the bytes
allow it: the first two bytes are looked at if a character ends behind
them, the digits are cut off at the same place, and what has only the
characters of a literal is handed on to a reader of numbers that knows
words of its own.

The one cut that is made without looking is made behind a mark, and a
mark is two bytes long; so it never goes wrong. The words of the reader of
numbers all have an n, which no literal has; so they never get through.
That the two readings agree on every text says both.
-/
import Reckoner.Proofs.Number.Numerals
import Reckoner.Proofs.Text.Cuts

namespace Reckoner

namespace Numeric

-- ============================================================ the reader

/-- The base that two bytes of a text tell. -/
def base? (mark : List Char) : Option Nat :=
  if mark = "0x".toList ∨ mark = "0X".toList then some 16
  else if mark = "0o".toList ∨ mark = "0O".toList then some 8
  else if mark = "0b".toList ∨ mark = "0B".toList then some 2
  else none

/-- A literal with a sign, or a word for what is no finite number, in
large or small letters. -/
def ofWritten? (cs : List Char) : Option Binary64 :=
  let word := (unsigned cs).2.map Char.toLower
  if word = "inf".toList ∨ word = "infinity".toList then some (.signed (unsigned cs).1 .infinity)
  else if word = "nan".toList then some .nan
  else (Decimal.ofLiteral? (unsigned cs).2).map fun d => .signed (unsigned cs).1 d.toMagnitude

/-- The number that the bytes of a text spell, nothing if the text is cut
inside a character. -/
def ofBytes? (cs : List Char) : Option Binary64 :=
  if cs = [] then some .zero
  else if cs = "Infinity".toList ∨ cs = "+Infinity".toList then some .infinity
  else if cs = "-Infinity".toList then some .negativeInfinity
  else match (Text.cut? cs 2).bind fun sides => base? sides.1 with
    | some base => (Text.cut? cs 2).map fun sides => ofDigits base sides.2
    | none => if cs.all isPlain then some ((ofWritten? cs).getD .nan) else some .nan

/-- Two bytes tell a base if they are a mark. -/
theorem base?_eq_some_iff {front : List Char} {base : Nat} :
    base? front = some base ↔ ∃ mark k, Marks mark k ∧ front = ['0', mark] ∧ base = 2 ^ k := by
  constructor
  · intro h
    unfold base? at h
    split at h
    · next hfront =>
      obtain rfl := Option.some.inj h
      exact hfront.elim (fun h => ⟨_, _, .hex, h, rfl⟩) (fun h => ⟨_, _, .hexUpper, h, rfl⟩)
    split at h
    · next hfront =>
      obtain rfl := Option.some.inj h
      exact hfront.elim (fun h => ⟨_, _, .octal, h, rfl⟩) (fun h => ⟨_, _, .octalUpper, h, rfl⟩)
    split at h
    · next hfront =>
      obtain rfl := Option.some.inj h
      exact hfront.elim (fun h => ⟨_, _, .binary, h, rfl⟩) (fun h => ⟨_, _, .binaryUpper, h, rfl⟩)
    · cases h
  · rintro ⟨mark, k, hmark, rfl, rfl⟩
    cases hmark <;> decide

/-- A mark is two bytes long, so what is behind it can be cut off. -/
theorem cut?_mark {mark : Char} {k : Nat} (h : Marks mark k) (ds : List Char) :
    Text.cut? ('0' :: mark :: ds) 2 = some (['0', mark], ds) := by
  refine Text.cut?_eq_some_iff.2 ⟨rfl, ?_⟩
  cases h <;> decide

/-- Where there is no mark, no base is told. -/
theorem base?_of_cut? {cs : List Char} (h : ∀ mark k ds, Marks mark k → cs ≠ '0' :: mark :: ds) :
    (Text.cut? cs 2).bind (fun sides => base? sides.1) = none := by
  refine Option.eq_none_iff_forall_ne_some.2 fun base hbase => ?_
  obtain ⟨⟨front, rest⟩, hcut, hfront⟩ := Option.bind_eq_some_iff.1 hbase
  obtain ⟨mark, k, hmark, rfl, -⟩ := base?_eq_some_iff.1 hfront
  exact h mark k rest hmark (Text.cut?_eq_some_iff.1 hcut).1

/-- No letter of a literal is an n, small or large. -/
theorem toLower_plain {c : Char} (h : isPlain c = true) : c.toLower ≠ 'n' :=
  of_isPlain (p := fun c => c.toLower ≠ 'n') h (by decide +kernel)

/-- Every word has an n, and so no word is plain. -/
theorem ofWritten?_plain {cs : List Char} (h : ∀ c ∈ cs, isPlain c = true) :
    (ofWritten? cs).getD .nan = ofSigned cs := by
  obtain ⟨sign, -, hcs⟩ := unsigned_sign cs
  have hplain : 'n' ∉ (unsigned cs).2.map Char.toLower := by
    intro hn
    obtain ⟨c, hc, hlower⟩ := List.mem_map.1 hn
    have hmem : c ∈ cs := by
      rw [hcs]
      exact List.mem_append_right sign hc
    exact toLower_plain (h c hmem) hlower
  have hinf : (unsigned cs).2.map Char.toLower ≠ "inf".toList :=
    fun heq => hplain (by rw [heq]; decide)
  have hinfinity : (unsigned cs).2.map Char.toLower ≠ "infinity".toList :=
    fun heq => hplain (by rw [heq]; decide)
  have hnan : (unsigned cs).2.map Char.toLower ≠ "nan".toList :=
    fun heq => hplain (by rw [heq]; decide)
  unfold ofWritten?
  dsimp only
  rw [if_neg (not_or.2 ⟨hinf, hinfinity⟩), if_neg hnan, ofSigned, Binary64.ofLiteral]
  cases Decimal.ofLiteral? (unsigned cs).2 <;> rfl

/-- What is neither a word nor behind a mark and has a character that is
not plain is worth nothing. -/
theorem ofSigned_of_not_plain {cs : List Char} (h : ¬ ∀ c ∈ cs, isPlain c = true) :
    ofSigned cs = .nan := by
  refine Decidable.byContradiction fun hnumber => h ?_
  obtain ⟨negative, sign, literal, d, hsign, hliteral, rfl⟩ := literal_of_ofSigned hnumber
  exact fun c hc => (List.mem_append.1 hc).elim (hsign.plain c) (hliteral.plain c)

/-- The bytes spell what the characters spell. -/
theorem ofBytes?_eq (cs : List Char) : ofBytes? cs = some (ofTrimmed cs) := by
  by_cases hnone : cs = []
  · rw [hnone]
    rfl
  by_cases hword : ∃ negative sign, Sign negative sign ∧ cs = sign ++ "Infinity".toList
  · obtain ⟨negative, sign, hsign, rfl⟩ := hword
    cases hsign <;> rfl
  have hwords : ∀ negative sign, Sign negative sign → cs ≠ sign ++ "Infinity".toList :=
    fun negative sign hsign hcs => hword ⟨negative, sign, hsign, hcs⟩
  have hbare : cs ≠ "Infinity".toList := hwords _ _ .none
  have hplus : cs ≠ "+Infinity".toList := hwords _ _ .plus
  have hminus : cs ≠ "-Infinity".toList := hwords _ _ .minus
  unfold ofBytes?
  rw [if_neg hnone, if_neg (not_or.2 ⟨hbare, hplus⟩), if_neg hminus]
  by_cases hmark : ∃ mark k ds, Marks mark k ∧ cs = '0' :: mark :: ds
  · obtain ⟨mark, k, ds, hbase, rfl⟩ := hmark
    have htold : base? ['0', mark] = some (2 ^ k) := base?_eq_some_iff.2 ⟨mark, k, hbase, rfl, rfl⟩
    rw [cut?_mark hbase, Option.bind_some, htold, ofTrimmed_radix hbase]
    rfl
  · have hmarks : ∀ mark k ds, Marks mark k → cs ≠ '0' :: mark :: ds :=
      fun mark k ds hbase hcs => hmark ⟨mark, k, ds, hbase, hcs⟩
    rw [base?_of_cut? hmarks, ofTrimmed_signed hnone hwords hmarks]
    by_cases hplain : ∀ c ∈ cs, isPlain c = true
    · rw [if_pos (List.all_eq_true.2 hplain), ofWritten?_plain hplain]
    · rw [if_neg (mt List.all_eq_true.1 hplain), ofSigned_of_not_plain hplain]

/-- A text is worth a number exactly if it is a numeral, and then the one
that it spells; and no text is cut inside a character on the way there. -/
theorem toNumber_eq_iff_numeral {φ : Type} (s : String) :
    (∀ x, Numeral (Text.trimBlanks s.toList) x ↔
      x ≠ .nan ∧ (Value.text s : Value φ).toNumber = x) ∧
    ofBytes? (Text.trimBlanks s.toList) = some (Value.text s : Value φ).toNumber :=
  ⟨fun _ => numeral_iff, ofBytes?_eq _⟩

end Numeric

end Reckoner
