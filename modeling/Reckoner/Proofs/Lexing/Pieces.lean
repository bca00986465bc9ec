/-
Texts taken apart, and put together again. A place that no token runs over
divides a text into two that are split alone as they are in the whole: a
lexeme of the first part sees as little of the second as it does of any
text, so it is found without it; and the second part is what the lexer
comes to when it has taken the first.

The way back has a condition, which is about the last token of the first
part and the first character of the second. Only a number and a name can
go on, and both are made of nothing but characters that they would take,
so neither ends in a blank, and neither takes one. Hence blanks can be put
wherever no token is, and all they do is to move what is behind them.
-/
import Reckoner.Proofs.Lexing.Shift

namespace Reckoner

/-- The token does not run over the offset. -/
def Token.Beside (t : Token) (offset : Nat) : Prop := t.span.stop ≤ offset ∨ offset ≤ t.span.start

instance (t : Token) (offset : Nat) : Decidable (t.Beside offset) :=
  inferInstanceAs (Decidable (_ ∨ _))

/-- Where the token stands once so many bytes are put in at the offset. -/
def Token.moved (offset distance : Nat) (t : Token) : Token :=
  if t.span.stop ≤ offset then t else t.shift distance

@[simp] theorem Token.word_moved (offset distance : Nat) (t : Token) :
    (t.moved offset distance).word = t.word := by
  unfold Token.moved
  split <;> rfl

/-- Front parts of a text that are as long in bytes are the same. -/
theorem Text.append_inj_of_byteLength {front front' back back' : List Char}
    (h : front ++ back = front' ++ back') (hlength : byteLength front = byteLength front') :
    front = front' ∧ back = back' := by
  obtain ⟨more, rfl, rfl⟩ := prefix_of_byteLength_le h (Nat.le_of_eq hlength)
  rw [byteLength_append] at hlength
  obtain rfl : more = [] := byteLength_eq_zero_iff.1 (by omega)
  exact ⟨(List.append_nil front).symm, rfl⟩

-- ============================================================ taken apart

namespace Tiles

variable {position : Nat} {cs ds : List Char} {tokens : List Token} {t : Token}

/-- A token that spans the bytes of a slice stands there. -/
theorem stands_at {front slice back : List Char}
    (h : Tiles position (front ++ (slice ++ back)) tokens) (ht : t ∈ tokens)
    (hspan : t.span = ⟨position + Text.byteLength front,
      position + Text.byteLength front + Text.byteLength slice⟩) :
    t.Stands position front slice back := by
  obtain ⟨front', slice', back', hsplit, hstands⟩ := h.stands t ht
  have hplace := hstands.span.symm.trans hspan
  injection hplace with hstart hstop
  obtain ⟨rfl, hrest⟩ := Text.append_inj_of_byteLength hsplit (by omega)
  obtain ⟨rfl, rfl⟩ := Text.append_inj_of_byteLength hrest (by omega)
  exact hstands

/-- A token that ends between two parts of a text would take nothing of the
second. -/
theorem apart_of_stop (h : Tiles position (cs ++ ds) tokens) (ht : t ∈ tokens)
    (hstop : t.span.stop = position + Text.byteLength cs) : Lexer.Apart t.kind ds := by
  obtain ⟨front, slice, back, hsplit, hstands⟩ := h.stands t ht
  rw [hstands.span, Nat.add_assoc, ← Text.byteLength_append] at hstop
  rw [← List.append_assoc] at hsplit
  obtain ⟨-, rfl⟩ := Text.append_inj_of_byteLength hsplit (Nat.add_left_cancel hstop).symm
  exact hstands.apart

/-- The other tokens end before the last one begins. -/
theorem eq_or_stop_le {u : Token} (h : Tiles position cs tokens) (hlast : t ∈ tokens.getLast?)
    (hu : u ∈ tokens) : u = t ∨ u.span.stop ≤ t.span.start := by
  obtain ⟨others, rfl⟩ := List.getLast?_eq_some_iff.1 hlast
  rcases List.mem_append.1 hu with hu | hu
  · exact .inr ((List.pairwise_append.1 h.ordered).2.2 u hu t (List.mem_singleton_self t))
  · exact .inl (List.mem_singleton.1 hu)

/-- No token begins in front of the text. -/
theorem le_start (h : Tiles position cs tokens) (ht : t ∈ tokens) : position ≤ t.span.start := by
  obtain ⟨front, slice, back, -, hstands⟩ := h.stands t ht
  rw [hstands.span]
  exact Nat.le_add_right ..

/-- No token of a text ends behind the text. -/
theorem stop_le (h : Tiles position cs tokens) (ht : t ∈ tokens) :
    t.span.stop ≤ position + Text.byteLength cs := by
  obtain ⟨front, slice, back, rfl, hstands⟩ := h.stands t ht
  rw [hstands.span, Text.byteLength_append, Text.byteLength_append]
  dsimp only
  omega

end Tiles

namespace Lexer

variable {position : Nat} {c : Char} {cs ds : List Char} {tokens : List Token}

/-- A lexeme is found in front of a part of what was behind it. -/
theorem scan_front {meaning : Option Word} {more rest rest' : List Char}
    (h : scan position c (more ++ rest) = .ok ⟨meaning, more⟩) (hfront : rest' <+: rest) :
    scan position c (more ++ rest') = .ok ⟨meaning, more⟩ := by
  cases meaning with
  | none =>
    obtain ⟨hblank, rfl⟩ := scan_blank_iff.1 h
    exact scan_blank_iff.2 ⟨hblank, rfl⟩
  | some word =>
    obtain ⟨hdenotes, hapart⟩ := scan_denotes h
    refine scan_of_denotes hdenotes (fun d hd => hapart d ?_) position
    obtain ⟨back, rfl⟩ := hfront
    rw [List.head?_append, Option.mem_def.1 hd]
    rfl

/-- The token that a lexeme is, if it is one. -/
theorem Lexeme.mem_prepend {lexeme : Lexeme} {word : Word} (h : lexeme.meaning = some word)
    (span : Span) (tokens : List Token) :
    (⟨word.1, word.2, span⟩ : Token) ∈ lexeme.prepend span tokens := by
  rw [Lexeme.prepend, h]
  exact List.mem_cons_self

theorem Lexeme.mem_prepend_of_mem {lexeme : Lexeme} {span : Span} {t : Token} (h : t ∈ tokens) :
    t ∈ lexeme.prepend span tokens := by
  unfold Lexeme.prepend
  split
  · exact List.mem_cons_of_mem _ h
  · exact h

/-- A place that no token runs over parts a text into two with the tokens
of the text. -/
theorem tokensFrom_cut {position : Nat} {cs ds : List Char} {tokens : List Token}
    (h : tokensFrom position (cs ++ ds) = .ok tokens)
    (hbeside : ∀ t ∈ tokens, t.Beside (position + Text.byteLength cs)) :
    ∃ others more, tokens = others ++ more ∧ tokensFrom position cs = .ok others ∧
      tokensFrom (position + Text.byteLength cs) ds = .ok more := by
  cases cs with
  | nil => exact ⟨[], tokens, rfl, tokensFrom_nil position, h⟩
  | cons c cs =>
    obtain ⟨⟨meaning, taken⟩, rest, behind, hscan, hsplit, hbehind, rfl⟩ := tokensFrom_cons_ok h
    dsimp only at hsplit hbehind hbeside
    -- the first lexeme does not reach over the place
    have hle : Text.byteLength taken ≤ Text.byteLength cs := by
      cases meaning with
      | none =>
        obtain ⟨-, rfl⟩ := scan_blank_iff.1 hscan
        exact Nat.zero_le _
      | some word =>
        have hfirst := hbeside _ (Lexeme.mem_prepend rfl _ _)
        have hsize := c.utf8Size_pos
        simp only [Token.Beside, Text.byteLength_cons] at hfirst
        omega
    obtain ⟨left, rfl, rfl⟩ := Text.prefix_of_byteLength_le hsplit.symm hle
    change scan position c (taken ++ left ++ ds) = _ at hscan
    have hplace : position + Text.byteLength (c :: taken) + Text.byteLength left
        = position + Text.byteLength (c :: (taken ++ left)) := by
      simp only [Text.byteLength_cons, Text.byteLength_append]
      omega
    obtain ⟨others, more, rfl, hothers, hmore⟩ := tokensFrom_cut hbehind fun t ht => by
      rw [hplace]
      exact hbeside t (Lexeme.mem_prepend_of_mem ht)
    rw [hplace] at hmore
    rw [List.append_assoc] at hscan
    have hscan' := scan_front hscan (List.prefix_append left ds)
    refine ⟨_, more, Lexeme.prepend_append _ others more, ?_, hmore⟩
    rw [tokensFrom_cons hscan', List.drop_left, hothers]
    rfl
termination_by cs.length
decreasing_by
  subst_vars
  simp only [List.length_cons, List.length_append]
  omega

-- ================================================= what a token goes on with

theorem continuesName_eq (c : Char) : continuesName c = (startsName c || c.isDigit) := by
  unfold continuesName startsName Char.isAlphanum
  cases c.isAlpha <;> cases c.isDigit <;> simp

/-- No token takes a blank that is right behind it. -/
theorem merges_blank (h : Text.isBlank c = true) (kind : TokenKind) : merges kind c = false := by
  have houtside := isBlank_outside h
  have hvisible : merges kind c = true → 33 ≤ c.toNat ∧ c.toNat ≤ 126 := by
    intro hmerges
    cases kind <;> first | cases hmerges | skip
    · exact isVisible_of_starts (.inl hmerges)
    · change continuesName c = true at hmerges
      rw [continuesName_eq, Bool.or_eq_true] at hmerges
      rcases hmerges with hname | hdigit
      · exact isVisible_of_starts (.inr (.inr (.inl hname)))
      · exact isVisible_of_starts (.inl (by simp [startsNumber, hdigit]))
  rw [Bool.eq_false_iff]
  intro hmerges
  have hrange := hvisible hmerges
  omega

/-- A token that takes some characters is made of such. -/
theorem Denotes.merges {slice : List Char} {word : Word} (h : Denotes slice word) :
    (∀ d ∈ slice, merges word.1 d = true) ∨ ∀ d, merges word.1 d = false := by
  cases h with
  | number numeral => exact .inl numeral.marks
  | string opens free => exact .inr fun _ => rfl
  | @identifier first rest starts continues =>
    refine .inl fun d hd => ?_
    rcases List.mem_cons.1 hd with rfl | hd
    · show continuesName d = true
      rw [continuesName_eq, starts]
      rfl
    · exact continues d hd
  | sign signs => exact .inr (merges_sign signs)

/-- Why no token runs over the seam between two texts, given the tokens of
the first. -/
inductive Parted (a b : String) (tokens : List Token) : Prop where
  | nothingBefore (empty : a = "")
  | nothingBehind (empty : b = "")
  /-- The first text ends with a blank. -/
  | blank {c : Char} (last : a.toList.getLast? = some c) (blank : Text.isBlank c = true)
  /-- It ends with a string or a sign. -/
  | closed {t : Token} (mem : t ∈ tokens) (ends : t.span.stop = a.utf8ByteSize)
      (kind : t.kind ≠ .number ∧ t.kind ≠ .identifier)
  /-- It ends with a number, and no digit and no point is behind it. -/
  | number {t : Token} (mem : t ∈ tokens) (ends : t.span.stop = a.utf8ByteSize)
      (kind : t.kind = .number) (first : ∀ d ∈ b.toList.head?, d ≠ '.' ∧ d.isDigit = false)
  /-- It ends with a name, and no character of names is behind it. -/
  | identifier {t : Token} (mem : t ∈ tokens) (ends : t.span.stop = a.utf8ByteSize)
      (kind : t.kind = .identifier) (first : ∀ d ∈ b.toList.head?, continuesName d = false)

/-- The last token of the first text would take nothing of the second. -/
theorem Parted.apart {a b : String} (h : Parted a b tokens) (htokens : tokenize a = .ok tokens) :
    ∀ t ∈ tokens.getLast?, t.span.stop = a.utf8ByteSize → Apart t.kind b.toList := by
  intro t hlast hstop
  have htiles : Tiles 0 a.toList tokens := tokensFrom_iff_tiles.1 htokens
  have ht : t ∈ tokens := List.mem_of_getLast? hlast
  have hsame {u : Token} (hu : u ∈ tokens) (hends : u.span.stop = a.utf8ByteSize) : u = t := by
    obtain ⟨_, _, _, -, hstands⟩ := htiles.stands t ht
    have hwide := hstands.start_lt_stop
    rcases htiles.eq_or_stop_le hlast hu with hsame | hbefore
    · exact hsame
    · omega
  cases h with
  | nothingBefore empty =>
    subst empty
    rw [htiles.nil_inv] at ht
    cases ht
  | nothingBehind empty =>
    subst empty
    exact fun _ hd => nomatch hd
  | @blank c last blank =>
    obtain ⟨front, slice, back, hsplit, hstands⟩ := htiles.stands t ht
    have hend := congrArg Text.byteLength hsplit
    rw [Text.byteLength_toList, ← hstop, hstands.span, Text.byteLength_append,
      Text.byteLength_append] at hend
    obtain rfl : back = [] := Text.byteLength_eq_zero_iff.1 (by dsimp only at hend; omega)
    -- a token that takes characters would have to end with this blank
    rcases hstands.denotes.merges with hmade | hnone
    · have hne := hstands.denotes.ne_nil
      rw [hsplit, List.append_nil, List.getLast?_append, List.getLast?_eq_some_getLast hne,
        Option.some_or, Option.some.injEq] at last
      have hmerges := hmade c (last ▸ List.getLast_mem hne)
      rw [merges_blank blank] at hmerges
      cases hmerges
    · exact fun d _ => hnone d
  | closed mem ends kind =>
    rw [hsame mem ends] at kind
    intro d _
    cases hkind : t.kind <;> first | rfl | exact absurd hkind kind.1 | exact absurd hkind kind.2
  | number mem ends kind first =>
    obtain rfl := hsame mem ends
    rw [kind]
    intro d hd
    obtain ⟨hpoint, hdigit⟩ := first d hd
    show startsNumber d = false
    simp [startsNumber, hpoint, hdigit]
  | identifier mem ends kind first =>
    obtain rfl := hsame mem ends
    rw [kind]
    exact first

-- ================================================================= blanks

/-- Blanks are split into nothing. -/
theorem tokensFrom_blanks {position : Nat} {cs : List Char}
    (h : ∀ c ∈ cs, Text.isBlank c = true) : tokensFrom position cs = .ok [] := by
  refine tokensFrom_of_tiles ⟨.nil, nofun, fun front c back hsplit _ => h c ?_⟩
  rw [hsplit]
  exact List.mem_append_right _ List.mem_cons_self

/-- Blanks between two texts are between their tokens. -/
theorem tokensFrom_insert {position : Nat} {cs blanks ds : List Char} {tokens : List Token}
    (h : tokensFrom position (cs ++ ds) = .ok tokens)
    (hbeside : ∀ t ∈ tokens, t.Beside (position + Text.byteLength cs))
    (hblanks : ∀ c ∈ blanks, Text.isBlank c = true) :
    tokensFrom position (cs ++ (blanks ++ ds)) = .ok (tokens.map
      (Token.moved (position + Text.byteLength cs) (Text.byteLength blanks))) := by
  have htiles := tiles_of_tokensFrom h
  obtain ⟨others, more, rfl, hothers, hmore⟩ := tokensFrom_cut h hbeside
  have hseam (t : Token) (ht : t ∈ others.getLast?)
      (hstop : t.span.stop = position + Text.byteLength cs) : Apart t.kind (blanks ++ ds) := by
    cases blanks with
    | nil =>
      exact htiles.apart_of_stop (List.mem_append_left _ (List.mem_of_getLast? ht)) hstop
    | cons c blanks =>
      intro d hd
      obtain rfl : c = d := Option.some.inj hd
      exact merges_blank (hblanks c List.mem_cons_self) t.kind
  have hstay : others = others.map
      (Token.moved (position + Text.byteLength cs) (Text.byteLength blanks)) := by
    refine (List.map_id others).symm.trans (List.map_congr_left fun t ht => ?_)
    exact (if_pos ((tiles_of_tokensFrom hothers).stop_le ht)).symm
  have hmove : more.map (·.shift (Text.byteLength blanks)) = more.map
      (Token.moved (position + Text.byteLength cs) (Text.byteLength blanks)) := by
    refine List.map_congr_left fun t ht => (if_neg ?_).symm
    have hbehind := (tiles_of_tokensFrom hmore).le_start ht
    obtain ⟨_, _, _, -, hstands⟩ := (tiles_of_tokensFrom hmore).stands t ht
    have hwide := hstands.start_lt_stop
    omega
  rw [tokensFrom_append hothers hseam, tokensFrom_append (tokensFrom_blanks hblanks) nofun,
    tokensFrom_shift, hmore, List.map_append, ← hstay, ← hmove]
  rfl

end Lexer

-- ============================================================ whole sources

/-- The tokens of two sources put together, where no token can run over the
seam, are those of the first and those of the second moved behind it; and
where the second is not split, neither is the whole, for the same reason
that much further to the right. And blanks that are put into a source where
no token is move the tokens behind them, and change nothing else. -/
theorem tokenize_pieces :
    (∀ {a b : String} {tokens : List Token}, tokenize a = .ok tokens → Lexer.Parted a b tokens →
      tokenize (a ++ b) = match tokenize b with
        | .ok more => .ok (tokens ++ more.map (·.shift a.utf8ByteSize))
        | .error e => .error (e.shift a.utf8ByteSize)) ∧
      ∀ {a b blanks : String} {tokens : List Token}, tokenize (a ++ b) = .ok tokens →
        (∀ t ∈ tokens, t.Beside a.utf8ByteSize) → (∀ c ∈ blanks.toList, Text.isBlank c = true) →
          ∃ moved, tokenize (a ++ blanks ++ b) = .ok moved ∧
            moved.map Token.word = tokens.map Token.word ∧
            moved = tokens.map (Token.moved a.utf8ByteSize blanks.utf8ByteSize) := by
  constructor
  · intro a b tokens h hparted
    rw [tokenize_append h (hparted.apart h)]
    cases tokenize b <;> rfl
  · intro a b blanks tokens h hbeside hblanks
    have hsize := Text.byteLength_toList a
    have hinsert : Lexer.tokensFrom 0 (a.toList ++ (blanks.toList ++ b.toList)) = .ok (tokens.map
        (Token.moved (0 + Text.byteLength a.toList) (Text.byteLength blanks.toList))) := by
      refine Lexer.tokensFrom_insert ?_ ?_ hblanks
      · rwa [← String.toList_append]
      · rwa [Nat.zero_add, hsize]
    refine ⟨_, ?_, ?_, rfl⟩
    · rw [tokenize, String.toList_append, String.toList_append, List.append_assoc, hinsert,
        Nat.zero_add, hsize, Text.byteLength_toList blanks]
    · rw [List.map_map]
      exact List.map_congr_left fun t _ => t.word_moved _ _

def nameTokens : List Token := [⟨.identifier, .text "a1", ⟨0, 2⟩⟩]

def signTokens : List Token := [⟨.operator, .symbol '+', ⟨0, 1⟩⟩, ⟨.number, .number .one, ⟨1, 2⟩⟩]

/-- A name with a sign behind it, a string with a character behind it that
begins no token, and a blank of three bytes between name and sign. -/
theorem tokenize_pieces_wide :
    tokenize ("a1" ++ "+1") = .ok (nameTokens ++ signTokens.map (·.shift 2)) ∧
      tokenize ("'é'" ++ "€") = .error (.invalidCharacter '€' 4) ∧
      ∃ moved, tokenize ("a1" ++ "\u3000" ++ "+1") = .ok moved ∧
        moved.map Token.span = [⟨0, 2⟩, ⟨5, 6⟩, ⟨6, 7⟩] := by
  have hname : tokenize "a1" = .ok nameTokens := by decide +kernel
  have hsign : tokenize "+1" = .ok signTokens := by decide +kernel
  have hstring : tokenize "'é'" = .ok [⟨.string, .text "é", ⟨0, 4⟩⟩] := by decide +kernel
  have hwrong : tokenize "€" = .error (.invalidCharacter '€' 0) := by decide +kernel
  have hfirst : ∀ d ∈ "+1".toList.head?, Lexer.continuesName d = false := by
    intro d hd
    obtain rfl : '+' = d := Option.some.inj hd
    decide
  have hboth := tokenize_pieces.1 hname
    (.identifier List.mem_cons_self (by decide) rfl hfirst)
  rw [hsign] at hboth
  have hfails := tokenize_pieces.1 hstring
    (.closed (b := "€") List.mem_cons_self (by decide) (by decide))
  rw [hwrong] at hfails
  have hblank : ∀ c ∈ "\u3000".toList, Text.isBlank c = true :=
    List.all_eq_true.1 (by decide)
  obtain ⟨moved, hmoved, -, rfl⟩ := tokenize_pieces.2 hboth (by decide) hblank
  exact ⟨hboth, hfails, _, hmoved, rfl⟩

end Reckoner
