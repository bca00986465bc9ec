/-
Printing and reading back keeps the meaning. A printable program is
printed as a text whose tokens have a derivation; under limits that leave
room for it and for the two trees, the text is read as a program that
does what the printed one does, down to the calls it makes. How much room
is enough depends on the program alone.
-/
import Reckoner.Proofs.Evaluation.Calls
import Reckoner.Proofs.Grammar.Places
import Reckoner.Proofs.Printing.Worth

namespace Reckoner

/-- A text with the words of a derivation is read as its tree where that
fits the limit, and refused for its depth elsewhere. -/
theorem Engine.parse_of_spells {source : String} {d : Derivation.OfProgram}
    (h : Spells source.toList d.yield) (engine : Engine) :
    (d.depth ≤ engine.parseLimit → engine.parse source = .ok d.tree) ∧
      (engine.parseLimit < d.depth → ∃ span, engine.parse source
        = .error (.parse ⟨.maxDepthExceeded engine.parseLimit, span⟩)) := by
  obtain ⟨tokens, htokens, hwords⟩ := h 0
  obtain ⟨hfits, hrefused⟩ := d.ofTokens_moved hwords engine.parseLimit
  have hparse : engine.parse source
      = (Program.ofTokens engine.parseLimit tokens).mapError .parse := by
    unfold Engine.parse tokenize
    rw [htokens]
  rw [hparse]
  constructor
  · intro hdepth
    rw [hfits hdepth]
    rfl
  · intro hdepth
    obtain ⟨span, hspan⟩ := hrefused hdepth
    rw [hspan]
    exact ⟨span, rfl⟩

/-- A printed program is read back as one that does the same, under all
limits from some point on: the same value or error, the same calls in the
same order, and the same state of the host in the end. -/
theorem Program.print_roundtrip (p : Program) (h : p.printable = true) :
    ∃ limit, ∀ engine : Engine, limit ≤ engine.parseLimit → limit ≤ engine.evalLimit →
      ∃ q, engine.parse p.print = .ok q ∧
        ∀ {φ σ : Type} [HostFunction φ] (host : Host φ σ) (env : Environment φ) (state : σ),
          engine.run host env q state = engine.run host env p state ∧
            engine.calls host env q state = engine.calls host env p state := by
  refine ⟨max p.spelling.depth (max p.height p.spelling.tree.height), ?_⟩
  intro engine hparse heval
  refine ⟨p.spelling.tree, (Engine.parse_of_spells (p.spells h) engine).1 (by omega), ?_⟩
  intro φ σ _ host env state
  have hrun {τ : Type} (host : Host φ τ) (state : τ) :
      engine.run host env p.spelling.tree state = engine.run host env p state := by
    rw [Engine.run_of_height_le (by omega), Engine.run_of_height_le (by omega),
      p.meaning_spelling host env h]
  refine ⟨hrun host state, ?_⟩
  unfold Engine.calls
  rw [hrun]

/-- A choice between leaves that have no literals, with a call in it. -/
def unspellable : Program :=
  ⟨[[.conditional (.number .negativeZero) (.text "'\"")
    (.call "f" [.number .negativeInfinity, .group [.number .nan, .identifier "$x"]])]]⟩

theorem print_roundtrip_unspellable : unspellable.printable = true ∧
    ∃ limit, ∀ engine : Engine, limit ≤ engine.parseLimit → limit ≤ engine.evalLimit →
      ∃ q, engine.parse unspellable.print = .ok q ∧
        ∀ {φ σ : Type} [HostFunction φ] (host : Host φ σ) (env : Environment φ) (state : σ),
          engine.run host env q state = engine.run host env unspellable state ∧
            engine.calls host env q state = engine.calls host env unspellable state :=
  have h : unspellable.printable = true := by decide
  ⟨h, unspellable.print_roundtrip h⟩

end Reckoner
