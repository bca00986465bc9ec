/-
Lines of a text, and the places in them. Where a text is split at exactly
its line ends, each line but the last has a line end, behind everything
else in it, and a carriage return and a line feed next to each other are
one. So `linesOf` splits a text.

In lines that come from such a split, a place is found by its byte offset:
above it there are whole lines, one for each line end before it, and then
comes the part of a line that is counted in characters. This is right only
where the place is in a line, not between a carriage return and its line
feed, and not behind the last line end of the text, where no line begins.
The induction is along the split.
-/
import Reckoner.Text.Blank
import Reckoner.Text.Lines

namespace Reckoner

namespace Text

-- ============================================================ line ends

/-- The characters that end a line. -/
def lineEndCharacters : List Char :=
  ['\n', '\x0b', '\x0c', '\r', '\u0085', '\u2028', '\u2029']

/-- The number of line ends of a text. A carriage return in front of a line
feed is not counted, so that the two are one line end. -/
def lineEnds : List Char → Nat
  | [] => 0
  | c :: rest =>
    if c ∈ lineEndCharacters ∧ ¬ (c = '\r' ∧ rest.head? = some '\n') then lineEnds rest + 1
    else lineEnds rest

/-- All of them are blanks. -/
theorem not_mem_lineEndCharacters_of_isBlank {c : Char} (h : isBlank c = false) :
    c ∉ lineEndCharacters := by
  have hblank : lineEndCharacters.all isBlank = true := by decide
  intro hmem
  rw [List.all_eq_true.1 hblank c hmem] at h
  cases h

/-- What is behind the other characters of a line: one of the characters
that end a line, or two of them that count as one. -/
inductive LineEnd : List Char → Prop
  | pair : LineEnd ['\r', '\n']
  | one {c : Char} (ends : c ∈ lineEndCharacters) : LineEnd [c]

/-- The text is split into lines at its line ends and nowhere else. Behind
the last line end there is a line only if there is some text, or no text at
all. -/
inductive SplitAtEnds : List Char → List (List Char) → Prop
  | last {line : List Char} (free : ∀ c ∈ line, c ∉ lineEndCharacters) : SplitAtEnds line [line]
  | ended {line mark : List Char} (free : ∀ c ∈ line, c ∉ lineEndCharacters)
      (ends : LineEnd mark) : SplitAtEnds (line ++ mark) [line ++ mark]
  | next {line mark rest : List Char} {lines : List (List Char)}
      (free : ∀ c ∈ line, c ∉ lineEndCharacters) (ends : LineEnd mark)
      (seam : mark = ['\r'] → rest.head? ≠ some '\n') (some : rest ≠ [])
      (later : SplitAtEnds rest lines) :
      SplitAtEnds (line ++ mark ++ rest) ((line ++ mark) :: lines)

/-- Of these lines the one with this index is the one that the byte offset
is in: it does not begin behind the offset, and if it is not the last it
does not end before it. -/
structure HoldsOffset (lines : List (List Char)) (offset index : Nat) : Prop where
  exists_line : index < lines.length
  begins : byteLength (lines.take index).flatten ≤ offset
  ends : index + 1 < lines.length → offset < byteLength (lines.take (index + 1)).flatten

theorem LineEnd.ne_nil {mark : List Char} (h : LineEnd mark) : mark ≠ [] := by
  cases h <;> exact List.cons_ne_nil _ _

theorem LineEnd.getLast {mark : List Char} (h : LineEnd mark) :
    ∀ c ∈ mark.getLast?, c ∈ lineEndCharacters := by
  intro c hc
  cases h with
  | pair =>
    obtain rfl : '\n' = c := Option.some.inj hc
    decide
  | one ends => rwa [← Option.some.inj hc]

/-- Only a line end of two characters has an inside. -/
theorem LineEnd.split {front back : List Char} (h : LineEnd (front ++ back)) :
    front = [] ∨ back = [] ∨ front = ['\r'] ∧ back = ['\n'] := by
  generalize hmark : front ++ back = mark at h
  cases h with
  | pair =>
    rcases List.cons_eq_append_iff.1 hmark.symm with ⟨rfl, -⟩ | ⟨later, rfl, hlater⟩
    · exact .inl rfl
    · rcases List.singleton_eq_append_iff.1 hlater with ⟨rfl, rfl⟩ | ⟨-, rfl⟩
      · exact .inr (.inr ⟨rfl, rfl⟩)
      · exact .inr (.inl rfl)
  | one ends =>
    rcases List.append_eq_singleton_iff.1 hmark with ⟨rfl, -⟩ | ⟨-, rfl⟩
    · exact .inl rfl
    · exact .inr (.inl rfl)

theorem lineEnds_cons_free {c : Char} (hc : c ∉ lineEndCharacters) (cs : List Char) :
    lineEnds (c :: cs) = lineEnds cs :=
  if_neg fun h => hc h.1

theorem lineEnds_pair (cs : List Char) : lineEnds ('\r' :: '\n' :: cs) = lineEnds cs + 1 := by
  have hfeed : '\n' ∈ lineEndCharacters := by decide
  simp [lineEnds, hfeed]

theorem lineEnds_free {line : List Char} (hfree : ∀ c ∈ line, c ∉ lineEndCharacters) :
    lineEnds line = 0 := by
  induction line with
  | nil => rfl
  | cons c line ih =>
    obtain ⟨hc, hline⟩ := List.forall_mem_cons.1 hfree
    exact (lineEnds_cons_free hc line).trans (ih hline)

/-- A line end behind a text without line ends is one more. -/
theorem lineEnds_line {line mark rest : List Char} (hfree : ∀ c ∈ line, c ∉ lineEndCharacters)
    (hmark : LineEnd mark) (hseam : mark = ['\r'] → rest.head? ≠ some '\n') :
    lineEnds (line ++ mark ++ rest) = lineEnds rest + 1 := by
  induction line with
  | nil =>
    cases hmark with
    | pair => exact lineEnds_pair rest
    | @one c ends =>
      have halone : ¬ (c = '\r' ∧ rest.head? = some '\n') :=
        fun h => hseam (by rw [h.1]) h.2
      exact if_pos ⟨ends, halone⟩
  | cons c line ih =>
    obtain ⟨hc, hline⟩ := List.forall_mem_cons.1 hfree
    exact (lineEnds_cons_free hc _).trans (ih hline)

-- =============================================================== places

/-- The place between the two parts of a text is in a line: it is where the
text begins or next to a character that ends no line. -/
inductive InLine : (front back : List Char) → Prop
  | start (back : List Char) : InLine [] back
  | before (front : List Char) {c : Char} (free : c ∉ lineEndCharacters) (back : List Char) :
      InLine front (c :: back)
  | behind (front : List Char) {c : Char} (free : c ∉ lineEndCharacters) (back : List Char) :
      InLine (front ++ [c]) back

/-- Whole lines, and a part of a line behind them. -/
structure Broken (front above line : List Char) : Prop where
  split : front = above ++ line
  ends : ∀ c ∈ above.getLast?, c ∈ lineEndCharacters
  free : ∀ c ∈ line, c ∉ lineEndCharacters

/-- Every text is broken behind its last line end. -/
theorem exists_broken (front : List Char) : ∃ above line, Broken front above line := by
  induction front with
  | nil => exact ⟨[], [], rfl, nofun, nofun⟩
  | cons c front ih =>
    obtain ⟨above, line, rfl, hends, hfree⟩ := ih
    cases above with
    | cons d above => exact ⟨c :: d :: above, line, rfl, hends, hfree⟩
    | nil =>
      by_cases hc : c ∈ lineEndCharacters
      · exact ⟨[c], line, rfl, by rintro _ ⟨rfl⟩; exact hc, hfree⟩
      · exact ⟨[], c :: line, rfl, nofun, List.forall_mem_cons.2 ⟨hc, hfree⟩⟩

theorem Broken.of_free {front : List Char} (h : ∀ c ∈ front, c ∉ lineEndCharacters) :
    Broken front [] front :=
  ⟨rfl, nofun, h⟩

/-- A whole line more is a whole line more above. -/
theorem Broken.below {front above line mark : List Char} (h : Broken front above line)
    (hmark : LineEnd mark) (first : List Char) :
    Broken (first ++ mark ++ front) (first ++ mark ++ above) line := by
  refine ⟨by rw [h.split, List.append_assoc _ above], fun c hc => ?_, h.free⟩
  cases hlast : above.getLast? with
  | some d =>
    rw [List.getLast?_append, hlast] at hc
    exact h.ends c (hlast.trans hc)
  | none =>
    have hd := List.getLast?_eq_some_getLast hmark.ne_nil
    rw [List.getLast?_append, hlast, Option.none_or, List.getLast?_append, hd] at hc
    exact hmark.getLast c (hd.trans hc)

/-- There is one way only to break a text. -/
theorem Broken.unique {front above line above' line' : List Char} (h : Broken front above line)
    (h' : Broken front above' line') : above = above' ∧ line = line' := by
  -- what one of them has above and the other has not ends a line and does not
  have hnil {above more line : List Char} (hends : ∀ c ∈ (above ++ more).getLast?,
      c ∈ lineEndCharacters) (hfree : ∀ c ∈ more ++ line, c ∉ lineEndCharacters) : more = [] := by
    obtain rfl | ⟨more, c, rfl⟩ := List.eq_nil_or_concat more
    · rfl
    · rw [List.concat_eq_append] at hends hfree
      rw [← List.append_assoc] at hends
      exact absurd (hends c List.getLast?_concat) (hfree c (by simp))
  rcases List.append_eq_append_iff.1 (h.split.symm.trans h'.split) with
    ⟨more, rfl, rfl⟩ | ⟨more, rfl, rfl⟩
  · obtain rfl := hnil h'.ends h.free
    simp
  · obtain rfl := hnil h.ends h'.free
    simp

/-- Such a place is not between a carriage return and its line feed. -/
theorem InLine.not_between {front back : List Char} (h : InLine front back)
    (hreturn : '\r' ∈ front.getLast?) : back.head? ≠ some '\n' := by
  have hends : '\r' ∈ lineEndCharacters ∧ '\n' ∈ lineEndCharacters := by decide
  cases h with
  | start back => cases hreturn
  | before front free back =>
    rintro ⟨rfl⟩
    exact free hends.2
  | behind front free back =>
    rw [List.getLast?_concat] at hreturn
    obtain rfl := Option.some.inj hreturn
    exact absurd hends.1 free

/-- At the end of a text, such a place is not behind a whole line. -/
theorem InLine.eq_nil_of_ends {above : List Char} (h : InLine above [])
    (hends : ∀ c ∈ above.getLast?, c ∈ lineEndCharacters) : above = [] := by
  cases h with
  | start => rfl
  | behind front free => exact absurd (hends _ List.getLast?_concat) free

/-- A place in a line stays one if lines above it are taken away. -/
theorem InLine.of_append {first front back : List Char} (h : InLine (first ++ front) back) :
    InLine front back := by
  generalize hwhole : first ++ front = whole at h
  cases h with
  | start =>
    obtain ⟨-, rfl⟩ := List.append_eq_nil_iff.1 hwhole
    exact .start back
  | before _ free back => exact .before front free back
  | @behind more c free back =>
    obtain rfl | ⟨front, d, rfl⟩ := List.eq_nil_or_concat front
    · exact .start back
    · rw [List.concat_eq_append, ← List.append_assoc] at hwhole
      obtain ⟨-, hlast⟩ := List.append_inj' hwhole rfl
      obtain rfl := List.singleton_inj.1 hlast
      rw [List.concat_eq_append]
      exact .behind front free back

/-- Such a place is before a line end or behind it. -/
theorem InLine.beside {first mark rest front back : List Char} (h : InLine front back)
    (hmark : LineEnd mark) (heq : first ++ mark ++ rest = front ++ back) :
    (∃ more, first = front ++ more ∧ back = more ++ mark ++ rest) ∨
      ∃ later, front = first ++ mark ++ later ∧ rest = later ++ back := by
  rw [List.append_assoc] at heq
  rcases List.append_eq_append_iff.1 heq with ⟨part, rfl, hpart⟩ | ⟨more, rfl, hback⟩
  · rcases List.append_eq_append_iff.1 hpart with ⟨later, rfl, hrest⟩ | ⟨other, rfl, hback⟩
    · exact .inr ⟨later, (List.append_assoc ..).symm, hrest⟩
    · rcases hmark.split with rfl | rfl | ⟨rfl, rfl⟩
      · exact .inl ⟨[], by simp, by simpa using hback⟩
      · exact .inr ⟨[], by simp, by simpa using hback.symm⟩
      · rw [hback] at h
        exact absurd rfl (h.not_between List.getLast?_concat)
  · exact .inl ⟨more, rfl, by rw [hback, List.append_assoc]⟩

/-- The line of a place in a text that is split at its line ends. If
nothing of it is behind the place, no other line is. -/
theorem SplitAtEnds.at_place {text : List Char} {lines : List (List Char)}
    (h : SplitAtEnds text lines) {front back above line : List Char} (htext : text = front ++ back)
    (hinline : InLine front back) (hbroken : Broken front above line) :
    ∃ whole more others, lines = whole ++ (line ++ more) :: others ∧ whole.flatten = above ∧
      whole.length = lineEnds front ∧ (more = [] → others = []) := by
  induction h generalizing front above with
  | last free =>
    subst htext
    have hfree (c : Char) (hc : c ∈ front) := free c (List.mem_append_left back hc)
    obtain ⟨rfl, rfl⟩ := hbroken.unique (.of_free hfree)
    exact ⟨[], back, [], rfl, rfl, (lineEnds_free hfree).symm, fun _ => rfl⟩
  | @ended first mark free ends =>
    rw [← List.append_nil (first ++ mark)] at htext
    rcases hinline.beside ends htext with ⟨more, rfl, -⟩ | ⟨later, rfl, hrest⟩
    · have hfree (c : Char) (hc : c ∈ front) := free c (List.mem_append_left more hc)
      obtain ⟨rfl, rfl⟩ := hbroken.unique (.of_free hfree)
      exact ⟨[], more ++ mark, [], by rw [List.append_assoc]; rfl, rfl, (lineEnds_free hfree).symm,
        fun _ => rfl⟩
    · -- behind the last line end there is no place
      obtain ⟨rfl, rfl⟩ := List.append_eq_nil_iff.1 hrest.symm
      have hlast : ∀ c ∈ (first ++ mark ++ []).getLast?, c ∈ lineEndCharacters :=
        ((@Broken.of_free [] nofun).below ends first).ends
      have hnil := hinline.eq_nil_of_ends hlast
      exact absurd (List.append_eq_nil_iff.1 (List.append_eq_nil_iff.1 hnil).1).2 ends.ne_nil
  | @next first mark rest lines free ends seam some later ih =>
    rcases hinline.beside ends htext with ⟨more, rfl, -⟩ | ⟨front, rfl, rfl⟩
    · have hfree (c : Char) (hc : c ∈ front) := free c (List.mem_append_left more hc)
      obtain ⟨rfl, rfl⟩ := hbroken.unique (.of_free hfree)
      refine ⟨[], more ++ mark, lines, by rw [List.append_assoc]; rfl, rfl,
        (lineEnds_free hfree).symm, fun hnil => ?_⟩
      exact absurd (List.append_eq_nil_iff.1 hnil).2 ends.ne_nil
    · obtain ⟨above', line', hbroken'⟩ := exists_broken front
      obtain ⟨rfl, rfl⟩ := hbroken.unique (hbroken'.below ends first)
      obtain ⟨whole, more, others, rfl, rfl, hcount, hmore⟩ :=
        ih rfl hinline.of_append hbroken'
      refine ⟨(first ++ mark) :: whole, more, others, rfl, List.flatten_cons, ?_, hmore⟩
      rw [lineEnds_line free ends fun hmark hfeed => ?_, List.length_cons, hcount]
      obtain ⟨cs, rfl⟩ := List.head?_eq_some_iff.1 hfeed
      exact seam hmark rfl

/-- There is one line only that an offset is in. -/
theorem HoldsOffset.unique {lines : List (List Char)} {offset i j : Nat}
    (h : HoldsOffset lines offset i) (h' : HoldsOffset lines offset j) : i = j := by
  have hle {i j : Nat} (h : HoldsOffset lines offset i) (h' : HoldsOffset lines offset j) :
      j ≤ i := by
    refine Nat.le_of_not_lt fun hlt => ?_
    have hbytes : byteLength (lines.take (i + 1)).flatten ≤ byteLength (lines.take j).flatten := by
      obtain ⟨more, hmore⟩ := List.take_prefix_take_left hlt
      rw [← hmore, List.flatten_append, byteLength_append]
      exact Nat.le_add_right _ _
    have hends := h.ends (Nat.lt_of_le_of_lt hlt h'.exists_line)
    have hbegins := h'.begins
    omega
  exact Nat.le_antisymm (hle h' h) (hle h h')

theorem HoldsOffset.of_append {whole : List (List Char)} {line : List Char}
    {others : List (List Char)} {offset : Nat} (hbegins : byteLength whole.flatten ≤ offset)
    (hends : others ≠ [] → offset < byteLength (whole.flatten ++ line)) :
    HoldsOffset (whole ++ line :: others) offset whole.length := by
  refine ⟨?_, ?_, fun hmore => ?_⟩
  · rw [List.length_append, List.length_cons]
    omega
  · rwa [List.take_left]
  · have hnext : (whole ++ line :: others).take (whole.length + 1) = whole ++ [line] := by
      rw [← List.singleton_append, ← List.append_assoc]
      exact List.take_left' (by rw [List.length_append]; rfl)
    rw [hnext, List.flatten_append, List.flatten_singleton]
    refine hends fun hnil => ?_
    rw [hnil, List.length_append] at hmore
    exact Nat.lt_irrefl _ hmore

-- ====================================================== lines as computed

theorem endsLine_iff {c : Char} : endsLine c = true ↔ c ∈ lineEndCharacters := by
  simp only [endsLine, lineEndCharacters, Bool.or_eq_true, beq_iff_eq, List.mem_cons,
    List.not_mem_nil, or_false, or_assoc]

/-- A character that ends no line is put at the front of the first one. -/
theorem SplitAtEnds.extendFirst {text : List Char} {lines : List (List Char)}
    (h : SplitAtEnds text lines) {c : Char} (hc : c ∉ lineEndCharacters) :
    SplitAtEnds (c :: text) (extendFirst c lines) := by
  cases h with
  | last free => exact .last (List.forall_mem_cons.2 ⟨hc, free⟩)
  | ended free ends => exact .ended (List.forall_mem_cons.2 ⟨hc, free⟩) ends
  | next free ends seam some later =>
    exact .next (List.forall_mem_cons.2 ⟨hc, free⟩) ends seam some later

/-- What is behind a line end is split into the lines after it. -/
theorem SplitAtEnds.behind {mark rest : List Char} (hmark : LineEnd mark)
    (hseam : mark = ['\r'] → rest.head? ≠ some '\n')
    (h : rest ≠ [] → SplitAtEnds rest (linesOf rest)) :
    SplitAtEnds (mark ++ rest) (mark :: linesOf rest) := by
  by_cases hrest : rest = []
  · rw [hrest, List.append_nil]
    exact @SplitAtEnds.ended [] mark nofun hmark
  · exact @SplitAtEnds.next [] mark rest _ nofun hmark hseam hrest (h hrest)

theorem splitAtEnds_linesOf {cs : List Char} (h : cs ≠ []) : SplitAtEnds cs (linesOf cs) := by
  fun_induction linesOf cs with
  | case1 => exact absurd rfl h
  | case2 rest ih => exact .behind .pair (fun h => absurd h (by decide)) ih
  | case3 c rest hpair hc ih =>
    refine .behind (.one (endsLine_iff.1 hc)) (fun hreturn hfeed => ?_) ih
    obtain ⟨cs, rfl⟩ := List.head?_eq_some_iff.1 hfeed
    exact hpair cs (List.singleton_inj.1 hreturn) rfl
  | case4 c rest hpair hc ih =>
    have hfree : c ∉ lineEndCharacters := fun hmem => hc (endsLine_iff.2 hmem)
    by_cases hrest : rest = []
    · subst hrest
      exact .last (List.forall_mem_singleton.2 hfree)
    · exact (ih hrest).extendFirst hfree

/-- A front part has as many bytes as characters begin in them. -/
theorem charsBefore_byteLength (front back : List Char) :
    charsBefore (byteLength front) (front ++ back) = front.length := by
  induction front with
  | nil => cases back <;> rfl
  | cons c front ih =>
    have hsize := c.utf8Size_pos
    obtain ⟨offset, hoffset⟩ : ∃ offset, byteLength (c :: front) = offset + 1 :=
      Nat.exists_eq_add_one.2 (byteLength_pos (List.cons_ne_nil c front))
    rw [hoffset, List.cons_append, charsBefore, ← hoffset, byteLength_cons,
      Nat.add_sub_cancel_left, ih, List.length_cons, Nat.add_comm]

/-- An offset is in one of the lines, and the characters of that line before
it are counted. -/
theorem locateFrom_eq {lines : List (List Char)} (hlines : lines ≠ []) (index : Nat)
    {start offset : Nat} (hstart : start ≤ offset) : ∃ whole line others,
    lines = whole ++ line :: others ∧
      locateFrom index start offset lines
        = ⟨index + whole.length, line, start + byteLength whole.flatten,
          charsBefore (offset - (start + byteLength whole.flatten)) line⟩ ∧
      start + byteLength whole.flatten ≤ offset ∧
      (others ≠ [] → offset < start + byteLength (whole.flatten ++ line)) := by
  fun_induction locateFrom index start offset lines with
  | case1 => exact absurd rfl hlines
  | case2 index start line => exact ⟨[], line, [], rfl, rfl, hstart, fun h => absurd rfl h⟩
  | case3 index start line next rest stop hinside =>
    exact ⟨[], line, next :: rest, rfl, rfl, hstart, fun _ => hinside⟩
  | case4 index start line next rest stop hbehind ih =>
    obtain ⟨whole, last, others, hwhole, hplace, hbegins, hends⟩ :=
      ih (List.cons_ne_nil next rest) (Nat.le_of_not_lt hbehind)
    have hbytes : stop + byteLength whole.flatten
        = start + byteLength (line :: whole).flatten := by
      rw [List.flatten_cons, byteLength_append, ← Nat.add_assoc]
    refine ⟨line :: whole, last, others, by rw [hwhole]; rfl, ?_, hbytes ▸ hbegins, fun h => ?_⟩
    · rw [hplace, hbytes, List.length_cons, Nat.add_assoc, Nat.add_comm 1]
    · have hinside := hends h
      rw [byteLength_append] at hinside ⊢
      omega

end Text

end Reckoner
