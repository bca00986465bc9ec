/-
How far ahead the parser looks. Every rule decides by the word of the next
token alone: what it takes, and what it says when it refuses, depends on
the words that it has taken and on the one behind them. So the tokens after
that one can be replaced by any others, all of them can be moved to other
places, and the rule does the same in front of them.

The number of levels is treated in the same way, and so are the arms of the
rules that are left open. A rule that has not run out of levels would not
have used more of them, so the second reading may be that of any higher
level; and it may give any answers in arms that are not taken. All of this
is one course, since a rule passes on what the rules below it did, in front
of the same next word.
-/
import Reckoner.Proofs.Grammar.Course

namespace Reckoner

open Reckoner.Derivation

namespace Parser

variable {α β : Type} {arms : Arms} {gap limit : Nat} {tokens : List Token}

-- ======================================================= readings in step

/-- In front of these tokens, wherever they stand, and of the same next
word, the second reader comes to this outcome and leaves what is behind. It
is not said of a reader that has more levels than the one that ran out of
them. -/
def Follows (arms : Arms) (gap : Nat) (run' : Reader α) (outcome : Except Obstacle α)
    (front rest : List Token) : Prop :=
  (outcome = .error .tooDeep → gap = 0) → ∀ ⦃front' rest' : List Token⦄,
    SameWords front front' → SameNext rest rest' → arms.Spares (front' ++ rest') →
      run' (front' ++ rest') = leave outcome rest'

/-- What the first reader comes to, the second one comes to as well. -/
def InStep (arms : Arms) (gap : Nat) (run run' : Reader α) (ts : List Token)
    (post : α → List Token → Prop) : Prop :=
  ∀ ⦃outcome rest⦄, run ts = leave outcome rest → ∃ front, ts = front ++ rest ∧
    (∀ a, outcome = .ok a → post a rest) ∧ Follows arms gap run' outcome front rest

namespace InStep

variable {run run' : Reader α} {ts : List Token} {post : α → List Token → Prop}

/-- Readers that take nothing. The second one does the same wherever the
next word is the same. -/
theorem at_once (outcome : Except Obstacle α) (hrun : run ts = leave outcome ts)
    (hpost : ∀ a, outcome = .ok a → post a ts)
    (hrun' : (outcome = .error .tooDeep → gap = 0) → ∀ ⦃rest' : List Token⦄,
      SameNext ts rest' → arms.Spares rest' → run' rest' = leave outcome rest') :
    InStep arms gap run run' ts post := by
  intro outcome' rest hread
  obtain ⟨rfl, rfl⟩ := leave_inj (hrun.symm.trans hread)
  refine ⟨[], rfl, hpost, fun hgap front' rest' hwords hnext hspares => ?_⟩
  obtain rfl := List.map_eq_nil_iff.1 hwords.symm
  exact hrun' hgap hnext hspares

theorem bind {next next' : Reading α → Except Stop (Reading β)} {mid : α → List Token → Prop}
    {post : β → List Token → Prop} (h : InStep arms gap run run' ts mid)
    (hnext : ∀ a rest, run ts = .ok (a, rest) → mid a rest →
      InStep arms gap (fun ts => next (a, ts)) (fun ts => next' (a, ts)) rest post) :
    InStep arms gap (fun ts => run ts >>= next) (fun ts => run' ts >>= next') ts post := by
  intro outcome rest hread
  obtain ⟨first, left, hrun⟩ := exists_leave (run ts)
  obtain ⟨front, rfl, hmid, hfollows⟩ := h hrun
  change run (front ++ left) >>= next = _ at hread
  rw [hrun] at hread
  cases first with
  | error obstacle =>
    cases outcome <;> cases hread
    refine ⟨front, rfl, nofun, fun hgap front' rest' hwords hnextword hspares => ?_⟩
    show run' (front' ++ rest') >>= next' = _
    rw [hfollows (fun h => hgap (congrArg _ (Except.error.inj h))) hwords hnextword hspares]
    rfl
  | ok a =>
    obtain ⟨front', rfl, hpost, hfollows'⟩ := hnext a left hrun (hmid a rfl) hread
    refine ⟨front ++ front', (List.append_assoc ..).symm, hpost,
      fun hgap both rest' hwords hnextword hspares => ?_⟩
    obtain ⟨f, f', rfl, hf, hf'⟩ := List.map_eq_append_iff.1 (hwords.symm.trans List.map_append)
    rw [List.append_assoc] at hspares
    -- what the second reader takes begins with the same word as before
    have hfirst := hfollows nofun hf.symm (.append hf'.symm hnextword) hspares
    show run' (f ++ f' ++ rest') >>= next' = _
    rw [List.append_assoc, hfirst]
    exact hfollows' hgap hf'.symm hnextword hspares.right

end InStep

/-- The course of two readings in step. -/
def Course.inStep (limit : Nat) (tokens : List Token) (arms : Arms) (gap : Nat) :
    Course limit tokens arms gap where
  Holds run run' ts post := InStep arms gap run run' ts post
  ok {_ a _ _} h := .at_once (.ok a) rfl (by rintro _ ⟨⟩; exact h) fun _ _ _ _ => rfl
  refuse {_ expected _ _} _ :=
    .at_once (.error (.unexpected expected)) rfl nofun fun _ _ _ _ => rfl
  mismatch {ts _ t} hnext hmismatch _ := by
    refine .at_once (.error (.unexpected expressionStarts)) rfl nofun
      fun _ rest' hword hspares => ?_
    -- the next token has the same word, so it is no more in agreement
    obtain ⟨others, rfl⟩ := List.head?_eq_some_iff.1 hnext
    cases rest' with
    | nil => cases hword
    | cons t' others' =>
      have hagree : t'.agrees = t.agrees := by
        obtain ⟨hkind, hpayload⟩ := Prod.mk.inj (Option.some.inj hword)
        unfold Token.agrees
        rw [hkind, hpayload]
      rcases hspares t' List.mem_cons_self with htrue | hsame
      · rw [hagree, hmismatch] at htrue
        cases htrue
      · rw [hsame]
        rfl
  deep {_ _ _} _ hrun' := .at_once (.error .tooDeep) rfl nofun fun hgap _ _ _ => by
    rw [hrun' (hgap rfl)]
    rfl
  bind h hnext := h.bind hnext
  look {_ _ look _ next' ts _} hglance _ h := by
    intro outcome rest hread
    obtain ⟨front, rfl, hpost, hfollows⟩ := h hread
    refine ⟨front, rfl, hpost, fun hgap front' rest' hwords hnext hspares => ?_⟩
    have hlooked : look (front' ++ rest') = look (front ++ rest) :=
      (hglance (SameNext.append hwords hnext)).symm
    show next' (look (front' ++ rest')) _ = _
    rw [hlooked]
    exact hfollows hgap hwords hnext hspares
  take {_ _ _ t _ _} h := by
    intro outcome rest hread
    obtain ⟨front, rfl, hpost, hfollows⟩ := h hread
    refine ⟨t :: front, rfl, hpost, fun hgap front' rest' hwords hnext hspares => ?_⟩
    obtain ⟨t', others, rfl, -, hothers⟩ := List.map_eq_cons_iff.1 hwords.symm
    exact hfollows hgap hothers.symm hnext fun u hu => hspares u (List.mem_cons_of_mem _ hu)

-- ============================================================ whole programs

theorem statements_inStep (limit : Nat) (tokens : List Token) (arms : Arms) (gap : Nat) :
    InStep arms gap (statements (statement (Grammar.ofDepth limit).expression))
      (statements (statement (arms.grammar (gap + limit)).expression)) tokens
      (Takes tokens .program limit tokens) :=
  (Course.inStep limit tokens arms gap).statements (awaits_program tokens) (Nat.le_refl _)

/-- With higher levels and their own answers the rules read the statements
in step with themselves. -/
theorem statements_settled {n n' : Nat} (h : n ≤ n') {tokens rest : List Token}
    {outcome : Except Obstacle (List Statement)} (hdepth : outcome ≠ .error .tooDeep ∨ n = n')
    (hread : statements (statement (Grammar.ofDepth n).expression) tokens = leave outcome rest) :
    ∃ front, tokens = front ++ rest ∧ ∀ ⦃front' rest' : List Token⦄, SameWords front front' →
      SameNext rest rest' →
      statements (statement (Grammar.ofDepth n').expression) (front' ++ rest')
        = leave outcome rest' := by
  obtain ⟨gap, rfl⟩ := Nat.exists_eq_add_of_le' h
  obtain ⟨front, htokens, -, hfollows⟩ := statements_inStep n tokens .own gap hread
  rw [Arms.own_grammar] at hfollows
  refine ⟨front, htokens, fun front' rest' hwords hnext =>
    hfollows (fun hdeep => ?_) hwords hnext (Arms.own_spares _)⟩
  rcases hdepth with hdepth | hsame
  · exact absurd hdeep hdepth
  · omega

/-- Where tokens are no program for another reason than their depth, the
tokens up to the one in question are no beginning of a program that is
read at a higher level. -/
theorem program_settled {n n' : Nat} (h : n ≤ n') {tokens rest : List Token}
    {obstacle : Obstacle} (hdepth : obstacle ≠ .tooDeep)
    (hread : program n tokens = .error ⟨obstacle, rest⟩) :
    ∃ front, tokens = front ++ rest ∧ ∀ rest' : List Token, rest'.head? = rest.head? →
      program n' (front ++ rest') = .error ⟨obstacle, rest'⟩ := by
  obtain ⟨outcome, left, hstatements⟩ :=
    exists_leave (statements (statement (Grammar.ofDepth n).expression) tokens)
  rw [program, hstatements] at hread
  have hnext {left rest' : List Token} (hhead : rest'.head? = left.head?) : SameNext left rest' :=
    congrArg (Option.map Token.word) hhead.symm
  cases outcome with
  | error obstacle' =>
    cases hread
    obtain ⟨front, htokens, hsame⟩ :=
      statements_settled h (.inl (by simpa using hdepth)) hstatements
    refine ⟨front, htokens, fun rest' hhead => ?_⟩
    rw [program, hsame rfl (hnext hhead)]
    rfl
  | ok ss =>
    obtain ⟨front, htokens, hsame⟩ := statements_settled h (.inl (by simp)) hstatements
    cases left with
    | nil => cases hread
    | cons found left =>
      cases hread
      refine ⟨front, htokens, fun rest' hhead => ?_⟩
      obtain ⟨left', rfl⟩ := List.head?_eq_some_iff.1 hhead
      rw [program, hsame rfl (hnext hhead)]
      rfl

end Parser

end Reckoner
