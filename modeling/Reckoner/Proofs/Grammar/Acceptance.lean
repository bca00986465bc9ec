/-
What the parser accepts. Completeness, soundness and unambiguity are put
together for whole lists of tokens: a program is read exactly where there
is a derivation that fits the limit, the derivation is the only one there
is, and its tree is what is read. Where the only derivation is too deep
the refusal says so, with the limit in it.
-/
import Reckoner.Proofs.Grammar.Soundness
import Reckoner.Proofs.Grammar.Unambiguity

namespace Reckoner

open Reckoner.Parser Reckoner.Derivation

namespace Derivation

-- ====================================================== whole programs

/-- The parser in front of a derivation of all its tokens. -/
theorem OfProgram.fits (d : OfProgram) (limit : Nat) :
    Fits (d.depth ≤ limit) (Parser.program limit d.yield) d.tree := by
  refine Fits.map (a := (d.statements, [])) ?_ rfl
  rw [← List.append_nil d.yield]
  exact d.reads limit rfl

theorem OfProgram.ofTokens_of_le (d : OfProgram) {limit : Nat} (h : d.depth ≤ limit) :
    Program.ofTokens limit d.yield = .ok d.tree := by
  rw [Program.ofTokens, (d.fits limit).accepted h]

theorem OfProgram.ofTokens_of_lt (d : OfProgram) {limit : Nat} (h : limit < d.depth) :
    ∃ span, Program.ofTokens limit d.yield = .error ⟨.maxDepthExceeded limit, span⟩ := by
  obtain ⟨left, hleft⟩ := (d.fits limit).refused (Nat.not_le.2 h)
  rw [Program.ofTokens, hleft]
  exact ⟨_, rfl⟩

/-- What is read has a derivation that fits the limit. -/
theorem exists_of_ofTokens {limit : Nat} {tokens : List Token} {p : Program}
    (hagree : Agreeing tokens) (h : Program.ofTokens limit tokens = .ok p) :
    ∃ d : OfProgram, d.yield = tokens ∧ d.tree = p ∧ d.depth ≤ limit := by
  rw [Program.ofTokens] at h
  split at h
  · next q hq =>
    injection h with h
    obtain ⟨⟨ss, left⟩, hstatements, hend⟩ := bind_eq_ok hq
    obtain ⟨front, rfl, d, rfl, rfl, hdepth⟩ := statements_sound limit hagree hstatements
    cases left with
    | nil =>
      injection hend with hend
      exact ⟨d, (List.append_nil _).symm, by rw [← h, ← hend]; rfl, hdepth⟩
    | cons t left => cases hend
  · cases h

/-- Tokens have one derivation at most. -/
theorem OfProgram.yield_injective {d d' : OfProgram} (h : d.yield = d'.yield) : d = d' :=
  have hends : d.yield ++ [] = d'.yield ++ [] := by rw [h]
  (d.unique d' rfl rfl hends).1

/-- The parser accepts the sentences of the grammar that fit the limit
and no others, and builds the tree of their only derivation. A sentence
that does not fit is refused for its depth. -/
theorem ofTokens_iff_derivation (limit : Nat) (tokens : List Token) (hagree : Agreeing tokens) :
    (∀ p, Program.ofTokens limit tokens = .ok p ↔
      ∃ d : OfProgram, d.yield = tokens ∧ d.depth ≤ limit ∧ d.tree = p) ∧
    (∀ d d' : OfProgram, d.yield = tokens → d'.yield = tokens → d = d') ∧
    (∀ d : OfProgram, d.yield = tokens → limit < d.depth →
      ∃ span, Program.ofTokens limit tokens = .error ⟨.maxDepthExceeded limit, span⟩) := by
  refine ⟨fun p => ⟨fun h => ?_, ?_⟩, ?_, ?_⟩
  · obtain ⟨d, hyield, htree, hdepth⟩ := exists_of_ofTokens hagree h
    exact ⟨d, hyield, hdepth, htree⟩
  · rintro ⟨d, rfl, hdepth, rfl⟩
    exact d.ofTokens_of_le hdepth
  · rintro d d' h h'
    exact OfProgram.yield_injective (h.trans h'.symm)
  · rintro d rfl hdepth
    exact d.ofTokens_of_lt hdepth

/-- The derivation of `f(a)?(b,1)*c:"s"-d;`, six levels deep. -/
def sample : OfProgram :=
  let leaf (p : OfPrimary) : OfExpression := .plain (.single (.single p))
  let call : OfPrimary :=
    .call "f" ⟨0, 1⟩ ⟨1, 2⟩ (.last (leaf (.identifier "a" ⟨2, 3⟩))) ⟨3, 4⟩
  let group : OfPrimary :=
    .group ⟨5, 6⟩ (.more (leaf (.identifier "b" ⟨6, 7⟩)) ⟨7, 8⟩
      (.last (leaf (.number .one ⟨8, 9⟩)))) ⟨9, 10⟩
  let product : OfProduct := .joined group .mul rfl ⟨10, 11⟩ (.single (.identifier "c" ⟨11, 12⟩))
  let difference : OfSum :=
    .joined (.single (.text "s" ⟨13, 16⟩)) .sub rfl ⟨16, 17⟩
      (.single (.single (.identifier "d" ⟨17, 18⟩)))
  .last (.last (.choice (.single (.single call)) ⟨4, 5⟩ (.single product) ⟨12, 13⟩ difference))
    ⟨18, 19⟩

/-- At six levels the sample is read, at five it is too deep. -/
theorem ofTokens_iff_derivation_sample :
    Agreeing sample.yield ∧ Program.ofTokens 6 sample.yield = .ok sample.tree ∧
      ∃ span, Program.ofTokens 5 sample.yield = .error ⟨.maxDepthExceeded 5, span⟩ := by
  have hagree : Agreeing sample.yield := by
    unfold Agreeing
    decide
  refine ⟨hagree, ?_, ?_⟩
  · exact ((ofTokens_iff_derivation 6 _ hagree).1 _).2 ⟨sample, rfl, by decide, rfl⟩
  · exact (ofTokens_iff_derivation 5 _ hagree).2.2 sample rfl (by decide)

end Derivation

end Reckoner
