/-
Texts put together. A token ends where the text behind it could not
belong to it, so splitting a text is a matter of its parts as long as no
token runs over the seam between them. Only numbers and names can: a
string has its closing quote and a sign is one character.

The seam is judged by the last token of the first part and the first
character of the second, and only where that token reaches the end. The
step is the same statement about one lexeme, which a text behind cannot
change unless the lexeme reaches the end of what it was found in.
-/
import Reckoner.Token.Lexer

namespace Reckoner.Lexer

-- ==================================================== runs of characters

section Runs

variable {α : Type} {p : α → Bool} {as bs : List α}

/-- A run that ends before the end, or before what comes behind, does not
grow. -/
theorem takeWhile_append_of_stop
    (h : (as.takeWhile p).length = as.length → ∀ b ∈ bs.head?, p b = false) :
    (as ++ bs).takeWhile p = as.takeWhile p := by
  induction as with
  | nil =>
    cases bs with
    | nil => rfl
    | cons b bs => simp [h rfl b rfl]
  | cons a as ih =>
    rw [List.cons_append, List.takeWhile_cons, List.takeWhile_cons]
    split
    · next ha =>
      rw [ih]
      intro hlength
      refine h ?_
      simp [ha, hlength]
    · rfl

/-- What is left behind such a run grows by what comes behind. -/
theorem dropWhile_append_of_stop
    (h : (as.takeWhile p).length = as.length → ∀ b ∈ bs.head?, p b = false) :
    (as ++ bs).dropWhile p = as.dropWhile p ++ bs := by
  induction as with
  | nil =>
    cases bs with
    | nil => rfl
    | cons b bs => simp [h rfl b rfl]
  | cons a as ih =>
    rw [List.cons_append, List.dropWhile_cons, List.dropWhile_cons]
    split
    · next ha =>
      rw [ih]
      intro hlength
      refine h ?_
      simp [ha, hlength]
    · rfl

end Runs

-- ======================================================== what can merge

/-- Would a token of this kind take the character if it came right
behind? -/
def merges (kind : TokenKind) (c : Char) : Bool :=
  match kind with
  | .number => startsNumber c
  | .identifier => continuesName c
  | _ => false

/-- No token of this kind right before the text would take any of it. -/
def Apart (kind : TokenKind) (cs : List Char) : Prop := ∀ c ∈ cs.head?, merges kind c = false

/-- The digits behind the point of a numeral, with the point. -/
def pointed : List Char → List Char
  | '.' :: rest => '.' :: rest.takeWhile Char.isDigit
  | _ => []

theorem numeral_eq (cs : List Char) :
    numeral cs = cs.takeWhile Char.isDigit ++ pointed (cs.dropWhile Char.isDigit) := rfl

/-- Without a point there are no digits behind it. -/
theorem pointed_of_ne {cs : List Char} (h : ∀ c ∈ cs.head?, c ≠ '.') : pointed cs = [] := by
  unfold pointed
  split
  · exact absurd rfl (h '.' rfl)
  · rfl

theorem pointed_append {cs ds : List Char}
    (h : (pointed cs).length = cs.length → Apart .number ds) :
    pointed (cs ++ ds) = pointed cs := by
  cases cs with
  | nil =>
    rw [List.nil_append, pointed_of_ne]
    · rfl
    · intro d hd
      have hapart := h rfl d hd
      rintro rfl
      simp [merges, startsNumber] at hapart
  | cons c cs =>
    by_cases hpoint : c = '.'
    · subst hpoint
      show '.' :: (cs ++ ds).takeWhile Char.isDigit = '.' :: cs.takeWhile Char.isDigit
      rw [takeWhile_append_of_stop]
      intro hall d hd
      have hapart := h (by simp [pointed, hall]) d hd
      simp only [merges, startsNumber, Bool.or_eq_false_iff] at hapart
      exact hapart.1
    · rw [pointed_of_ne (by simpa using hpoint), pointed_of_ne (by simpa using hpoint)]

/-- A numeral that ends before the end, or before what comes behind, does
not grow. -/
theorem numeral_append {cs ds : List Char}
    (h : (numeral cs).length = cs.length → Apart .number ds) :
    numeral (cs ++ ds) = numeral cs := by
  have hlength : cs.length
      = (cs.takeWhile Char.isDigit).length + (cs.dropWhile Char.isDigit).length := by
    rw [← List.length_append, List.takeWhile_append_dropWhile]
  have hnumeral : (numeral cs).length
      = (cs.takeWhile Char.isDigit).length + (pointed (cs.dropWhile Char.isDigit)).length := by
    rw [numeral_eq, List.length_append]
  have hdigits : (cs.takeWhile Char.isDigit).length = cs.length →
      ∀ d ∈ ds.head?, d.isDigit = false := by
    intro hall d hd
    have hfront := (numeral_front cs).length_le
    have hapart := h (by omega) d hd
    simp only [merges, startsNumber, Bool.or_eq_false_iff] at hapart
    exact hapart.1
  rw [numeral_eq, numeral_eq, takeWhile_append_of_stop hdigits, dropWhile_append_of_stop hdigits,
    pointed_append]
  intro hall
  exact h (by omega)

-- ============================================================ one lexeme

/-- The text behind leaves a lexeme alone, unless the lexeme reaches the
end and its token would take more. -/
def Lexeme.Sealed (lexeme : Lexeme) (cs ds : List Char) : Prop :=
  lexeme.more.length = cs.length →
    ∀ kind payload, lexeme.meaning = some (kind, payload) → Apart kind ds

variable {position : Nat} {c : Char} {cs ds : List Char} {lexeme : Lexeme}

/-- A number is scanned alike with more behind it, if it cannot go on
there. -/
theorem scanNumber_append (h : scanNumber position (c :: cs) = .ok lexeme)
    (hsealed : lexeme.Sealed cs ds) :
    scanNumber position (c :: (cs ++ ds)) = .ok lexeme := by
  unfold scanNumber at h ⊢
  dsimp only at h ⊢
  split at h
  · cases h
  · next hpoint =>
    injection h with h
    subst h
    have hapart : (numeral (c :: cs)).length = (c :: cs).length → Apart .number ds := by
      intro hall
      refine hsealed ?_ _ _ rfl
      rw [List.length_tail, hall]
      rfl
    rw [← List.cons_append, numeral_append hapart, if_neg]
    have hfront := (numeral_front (c :: cs)).length_le
    rw [List.drop_append_of_le_length hfront]
    cases hrest : (c :: cs).drop (numeral (c :: cs)).length with
    | nil =>
      intro hd
      have hall : (c :: cs).length ≤ (numeral (c :: cs)).length := List.drop_eq_nil_iff.1 hrest
      have hmerge := hapart (by omega) '.' hd
      simp [merges, startsNumber] at hmerge
    | cons d rest =>
      rw [hrest] at hpoint
      exact hpoint

theorem scanString_append (h : scanString position c cs = .ok lexeme) :
    scanString position c (cs ++ ds) = .ok lexeme := by
  unfold scanString at h ⊢
  dsimp only at h ⊢
  split at h
  · next hmem =>
    rw [if_pos (List.mem_append_left _ hmem), takeWhile_append_of_stop]
    · exact h
    · intro hall
      -- a run up to a character that is there cannot be everything
      have hself := (List.takeWhile_prefix (p := (· != c)) (l := cs)).eq_of_length hall
      have hrun := List.all_takeWhile (p := (· != c)) (l := cs)
      rw [hself, List.all_eq_true] at hrun
      simpa using hrun c hmem
  · cases h

theorem scanName_append (hsealed : (scanName c cs).Sealed cs ds) :
    scanName c (cs ++ ds) = scanName c cs := by
  unfold scanName
  dsimp only
  rw [takeWhile_append_of_stop]
  intro hall
  exact hsealed hall _ _ rfl

theorem scan_append (h : scan position c cs = .ok lexeme) (hsealed : lexeme.Sealed cs ds) :
    scan position c (cs ++ ds) = .ok lexeme := by
  unfold scan at h ⊢
  split at h
  · next hnumber =>
    rw [if_pos hnumber]
    exact scanNumber_append h hsealed
  · next hnumber =>
    rw [if_neg hnumber]
    split at h
    · next hquote =>
      rw [if_pos hquote]
      exact scanString_append h
    · next hquote =>
      rw [if_neg hquote]
      split at h
      · next hname =>
        rw [if_pos hname]
        injection h with h
        subst h
        rw [scanName_append hsealed]
      · next hname =>
        rw [if_neg hname]
        exact h

-- =========================================================== whole texts

/-- The token that a lexeme is, in front of others. -/
def Lexeme.prepend (lexeme : Lexeme) (span : Span) (tokens : List Token) : List Token :=
  match lexeme.meaning with
  | some (kind, payload) => ⟨kind, payload, span⟩ :: tokens
  | none => tokens

theorem Lexeme.prepend_append (span : Span) (tokens others : List Token) :
    lexeme.prepend span (tokens ++ others) = lexeme.prepend span tokens ++ others := by
  unfold Lexeme.prepend
  split <;> rfl

theorem tokensFrom_nil (position : Nat) : tokensFrom position [] = .ok [] := by
  rw [tokensFrom]

/-- A text is its first lexeme and the text behind it. -/
theorem tokensFrom_cons (h : scan position c cs = .ok lexeme) :
    tokensFrom position (c :: cs) =
      (tokensFrom (position + Text.byteLength (c :: lexeme.more))
        (cs.drop lexeme.more.length)).map
        (lexeme.prepend ⟨position, position + Text.byteLength (c :: lexeme.more)⟩) := by
  rw [tokensFrom, h]
  rfl

/-- Where a text is split, its first lexeme is found, and the rest is split
behind it. -/
theorem tokensFrom_cons_ok {tokens : List Token}
    (h : tokensFrom position (c :: cs) = .ok tokens) :
    ∃ lexeme rest others, scan position c cs = .ok lexeme ∧ cs = lexeme.more ++ rest ∧
      tokensFrom (position + Text.byteLength (c :: lexeme.more)) rest = .ok others ∧
      tokens = lexeme.prepend ⟨position, position + Text.byteLength (c :: lexeme.more)⟩ others := by
  cases hscan : scan position c cs with
  | error e =>
    rw [tokensFrom, hscan] at h
    cases h
  | ok lexeme =>
    obtain ⟨rest, rfl⟩ := more_front hscan
    rw [tokensFrom_cons hscan, List.drop_left] at h
    cases hrest : tokensFrom (position + Text.byteLength (c :: lexeme.more)) rest with
    | error e =>
      rw [hrest] at h
      cases h
    | ok others =>
      rw [hrest] at h
      injection h with h
      exact ⟨lexeme, rest, others, rfl, rfl, hrest, h.symm⟩

/-- The last of some tokens is still the last behind a lexeme. -/
theorem Lexeme.getLast?_prepend {span : Span} {tokens : List Token} {t : Token}
    (h : t ∈ tokens.getLast?) : t ∈ (lexeme.prepend span tokens).getLast? := by
  unfold Lexeme.prepend
  split
  · rw [List.getLast?_cons, h]
    rfl
  · exact h

/-- Splitting a text that is put together is splitting its parts, as long
as the last token of the first part does not run over the seam. -/
theorem tokensFrom_append {position : Nat} {cs ds : List Char} {tokens : List Token}
    (h : tokensFrom position cs = .ok tokens)
    (hseam : ∀ t ∈ tokens.getLast?, t.span.stop = position + Text.byteLength cs →
      Apart t.kind ds) :
    tokensFrom position (cs ++ ds) =
      (tokensFrom (position + Text.byteLength cs) ds).map (tokens ++ ·) := by
  cases cs with
  | nil =>
    rw [tokensFrom_nil] at h
    injection h with h
    subst h
    show tokensFrom position ds = (tokensFrom position ds).map _
    cases tokensFrom position ds <;> rfl
  | cons c cs =>
    obtain ⟨lexeme, rest, others, hscan, rfl, hothers, rfl⟩ := tokensFrom_cons_ok h
    have hsealed : lexeme.Sealed (lexeme.more ++ rest) ds := by
      intro hall kind payload hmeaning
      have hrest : rest = [] := by simpa using hall
      subst hrest
      rw [tokensFrom_nil] at hothers
      injection hothers with hothers
      subst hothers
      refine hseam ⟨kind, payload, position, position + Text.byteLength (c :: lexeme.more)⟩ ?_ ?_
      · rw [Lexeme.prepend, hmeaning]
        rfl
      · rw [List.append_nil]
    have hstop : position + Text.byteLength (c :: (lexeme.more ++ rest))
        = position + Text.byteLength (c :: lexeme.more) + Text.byteLength rest := by
      simp only [Text.byteLength_cons, Text.byteLength_append]
      omega
    have ih := tokensFrom_append hothers fun t ht hend =>
      hseam t (Lexeme.getLast?_prepend ht) (by rw [hstop, hend])
    rw [List.cons_append, tokensFrom_cons (scan_append hscan hsealed), List.append_assoc,
      List.drop_left, ih, hstop]
    cases tokensFrom _ ds with
    | error e => rfl
    | ok tail => exact congrArg Except.ok (Lexeme.prepend_append ..)
termination_by cs.length
decreasing_by
  subst_vars
  simp only [List.length_cons, List.length_append]
  omega

end Reckoner.Lexer
