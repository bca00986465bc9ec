/-
Tokens with the same words. No rule looks at where a token stands, so two
lists of tokens that differ in places only are read in step: at every
point the readers have taken as many tokens from the one as from the
other, and they come to the same program or meet the same obstacle.

A list has its own words too. So what a reader leaves is the list behind
some index, whatever becomes of the reading, and that is how an error
comes by its place.
-/
import Reckoner.Proofs.Grammar.Lookahead
import Reckoner.Proofs.Grammar.Soundness

namespace Reckoner.Parser

/-- Readings of two lists stop in front of the same index, or at the end
of both. They meet the same obstacle, or a trailing token, which is the one
at the index. -/
inductive StopsAlike (ts ts' : List Token) (k : Nat) : Stop → Stop → Prop where
  | same (obstacle : Obstacle) (within : ∀ t, obstacle ≠ .trailing t) :
      StopsAlike ts ts' k ⟨obstacle, ts.drop k⟩ ⟨obstacle, ts'.drop k⟩
  | trailing {t t' : Token} (found : ts[k]? = some t) (found' : ts'[k]? = some t') :
      StopsAlike ts ts' k ⟨.trailing t, ts.drop k⟩ ⟨.trailing t', ts'.drop k⟩

theorem StopsAlike.symm {ts ts' : List Token} {k : Nat} {stop stop' : Stop}
    (h : StopsAlike ts ts' k stop stop') : StopsAlike ts' ts k stop' stop := by
  cases h with
  | same obstacle within => exact .same obstacle within
  | trailing found found' => exact .trailing found' found

/-- A trailing token is no obstacle to a rule: only a whole program has
tokens behind it. -/
theorem statements_ne_trailing {limit : Nat} {tokens rest : List Token} {t : Token} :
    statements (statement (Grammar.ofDepth limit).expression) tokens
      ≠ .error ⟨.trailing t, rest⟩ := by
  intro h
  have hrefused := ((statements_comesTo limit tokens).refuses h).refused
  cases hrefused

/-- Lists with the same words are the same program, or none at the same
index. -/
theorem program_alike {limit : Nat} {ts ts' : List Token} (hwords : SameWords ts ts') :
    (∃ p, program limit ts = .ok p ∧ program limit ts' = .ok p) ∨
      ∃ stop stop' k, program limit ts = .error stop ∧ program limit ts' = .error stop' ∧
        StopsAlike ts ts' k stop stop' := by
  obtain ⟨outcome, rest, hread⟩ :=
    exists_leave (statements (statement (Grammar.ofDepth limit).expression) ts)
  obtain ⟨front, rfl, hsame⟩ := statements_settled (Nat.le_refl limit) (.inr rfl) hread
  obtain ⟨front', rest', rfl, hfront, hrest⟩ :=
    List.map_eq_append_iff.1 (hwords.symm.trans List.map_append)
  have hread' := hsame hfront.symm (SameWords.sameNext hrest.symm)
  have hlength : front'.length = front.length := by
    simpa using congrArg List.length hfront
  have hdrop : (front ++ rest).drop front.length = rest := List.drop_left
  have hdrop' : (front' ++ rest').drop front.length = rest' := by rw [← hlength, List.drop_left]
  unfold program
  rw [hread, hread']
  cases outcome with
  | error obstacle =>
    have hwithin (t : Token) : obstacle ≠ .trailing t := by
      rintro rfl
      exact statements_ne_trailing hread
    have hstops := @StopsAlike.same (front ++ rest) (front' ++ rest') front.length obstacle hwithin
    rw [hdrop, hdrop'] at hstops
    exact .inr ⟨_, _, _, rfl, rfl, hstops⟩
  | ok ss =>
    cases rest with
    | nil =>
      obtain rfl := List.map_eq_nil_iff.1 hrest
      exact .inl ⟨_, rfl, rfl⟩
    | cons t left =>
      obtain ⟨t', left', rfl, -, -⟩ := List.map_eq_cons_iff.1 hrest
      have hfound : (front ++ t :: left)[front.length]? = some t := by simp
      have hfound' : (front' ++ t' :: left')[front.length]? = some t' := by simp [← hlength]
      have hstops := StopsAlike.trailing hfound hfound'
      rw [hdrop, hdrop'] at hstops
      exact .inr ⟨_, _, _, rfl, rfl, hstops⟩

end Reckoner.Parser
