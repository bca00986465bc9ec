/-
The chunks of a text with quotes are as few as can be. A chunk goes on
until a quote would come to stand beside one of the other kind, so to have
fewer of them some chunk would have to go on for longer than it can.

The induction is along any other way to cut the text. The part at its
front holds one kind of quote at most; going over it, the chunks are cut
once at most, and not at all if the chunk under way holds no other quote.
So the first part costs nothing beyond the first chunk, and every further
part one chunk more. The cost of a part does not depend on where it was
reached, which is all that is asked of the quote seen so far.

A text that is stored as bytes is cut by keeping the offset where the
chunk under way begins, and two flags for what it holds. The offsets are
lengths of front parts, so no cut falls inside a character, and the two
flags are the one quote that has been seen.
-/
import Reckoner.Proofs.Printing.Chunks
import Reckoner.Proofs.Text.Cuts

namespace Reckoner.Printer

open Lexer Text

-- ========================================================== single chunks

/-- The literal of a chunk is a single token, which has the chunk for its
text. -/
theorem tokenize_chunk {quote : Char} {cs : List Char} (h : Quotes quote cs) :
    tokenize (chunk cs)
      = .ok [⟨.string, .text (String.ofList cs), ⟨0, byteLength cs + 2⟩⟩] := by
  obtain ⟨around, haround, hfree, htext⟩ := toList_chunk h
  have hsize : around.utf8Size = 1 := by
    rcases isQuote_iff.1 haround with rfl | rfl <;> rfl
  have hlength : 0 + byteLength (around :: (cs ++ [around])) = byteLength cs + 2 := by
    simp only [byteLength_cons, byteLength_append, byteLength_nil, hsize]
    omega
  rw [tokenize, htext, tokensFrom_cons (scan_string haround hfree 0), List.drop_length,
    tokensFrom_nil, hlength]
  rfl

/-- Chunks hold something, but for the first one if a quote has been seen
or there is no text. -/
theorem chunksFrom_filled (seen : Option Char) (cs : List Char) :
    ∃ first rest, chunksFrom seen cs = first :: rest ∧ (∀ chunk ∈ rest, chunk ≠ []) ∧
      (seen = none → cs ≠ [] → first ≠ []) := by
  induction cs generalizing seen with
  | nil => exact ⟨[], [], rfl, nofun, fun _ h => absurd rfl h⟩
  | cons c cs ih =>
    unfold chunksFrom
    by_cases hquote : c = '\x27' ∨ c = '\x22'
    · obtain ⟨first, rest, hchunks, hrest, -⟩ := ih (some c)
      rw [if_pos hquote, hchunks]
      by_cases hgoes : seen = none ∨ seen = some c
      · rw [if_pos hgoes]
        exact ⟨c :: first, rest, rfl, hrest, fun _ _ => List.cons_ne_nil c first⟩
      · rw [if_neg hgoes]
        refine ⟨[], (c :: first) :: rest, rfl, fun chunk hchunk => ?_,
          fun hnone => absurd (.inl hnone) hgoes⟩
        rcases List.mem_cons.1 hchunk with rfl | hchunk
        · exact List.cons_ne_nil c first
        · exact hrest chunk hchunk
    · obtain ⟨first, rest, hchunks, hrest, -⟩ := ih seen
      rw [if_neg hquote, hchunks]
      exact ⟨c :: first, rest, rfl, hrest, fun _ _ => List.cons_ne_nil c first⟩

theorem quoteChunks_filled {cs chunk : List Char} (h : cs ≠ []) (hchunk : chunk ∈ quoteChunks cs) :
    chunk ≠ [] := by
  obtain ⟨first, rest, hchunks, hrest, hfirst⟩ := chunksFrom_filled none cs
  rw [quoteChunks, hchunks] at hchunk
  rcases List.mem_cons.1 hchunk with rfl | hchunk
  · exact hfirst rfl h
  · exact hrest chunk hchunk

-- ============================================================ the number of chunks

theorem length_consFirst_chunksFrom (c : Char) (seen : Option Char) (cs : List Char) :
    (consFirst c (chunksFrom seen cs)).length = (chunksFrom seen cs).length := by
  obtain ⟨first, rest, hchunks, -⟩ := chunksFrom_filled seen cs
  rw [hchunks]
  rfl

/-- A part with one kind of quote costs one cut at most, and none if the
chunk under way holds no other quote. -/
theorem length_chunksFrom_append {quote : Char} {part : List Char} (h : Quotes quote part)
    (seen : Option Char) (rest : List Char) :
    ∃ seen', (chunksFrom seen (part ++ rest)).length ≤ (chunksFrom seen' rest).length + 1 ∧
      ((seen = none ∨ seen = some quote) →
        (chunksFrom seen (part ++ rest)).length ≤ (chunksFrom seen' rest).length) := by
  induction part generalizing seen with
  | nil => exact ⟨seen, Nat.le_succ _, fun _ => Nat.le_refl _⟩
  | cons c part ih =>
    have hpart : Quotes quote part := ⟨h.1, fun d hd => h.2 d (List.mem_cons_of_mem _ hd)⟩
    rw [List.cons_append, chunksFrom]
    by_cases hquote : c = '\x27' ∨ c = '\x22'
    · obtain rfl : c = quote := h.2 c List.mem_cons_self (isQuote_iff.2 hquote)
      obtain ⟨seen', -, hstays⟩ := ih hpart (some c)
      have hbehind := hstays (.inr rfl)
      rw [if_pos hquote]
      by_cases hgoes : seen = none ∨ seen = some c
      · rw [if_pos hgoes, length_consFirst_chunksFrom]
        exact ⟨seen', Nat.le_succ_of_le hbehind, fun _ => hbehind⟩
      · rw [if_neg hgoes, List.length_cons, length_consFirst_chunksFrom]
        exact ⟨seen', Nat.succ_le_succ hbehind, fun h => absurd h hgoes⟩
    · rw [if_neg hquote, length_consFirst_chunksFrom]
      exact ih hpart seen

/-- In the middle of a chunk one more is needed than there are parts of
what follows. -/
theorem length_chunksFrom_flatten_le (seen : Option Char) {parts : List (List Char)}
    (h : ∀ part ∈ parts, ∃ quote, Quotes quote part) :
    (chunksFrom seen parts.flatten).length ≤ parts.length + 1 := by
  induction parts generalizing seen with
  | nil => exact Nat.le_refl 1
  | cons part parts ih =>
    obtain ⟨quote, hpart⟩ := h part List.mem_cons_self
    obtain ⟨seen', hfirst, -⟩ := length_chunksFrom_append hpart seen parts.flatten
    have hrest := ih seen' fun other hother => h other (List.mem_cons_of_mem _ hother)
    rw [List.flatten_cons, List.length_cons]
    omega

/-- At the beginning of the text the first part costs nothing. -/
theorem length_quoteChunks_le {part : List Char} {parts : List (List Char)}
    (h : ∀ other ∈ part :: parts, ∃ quote, Quotes quote other) :
    (quoteChunks (part :: parts).flatten).length ≤ (part :: parts).length := by
  obtain ⟨quote, hpart⟩ := h part List.mem_cons_self
  obtain ⟨seen, -, hfirst⟩ := length_chunksFrom_append hpart none parts.flatten
  have hrest := length_chunksFrom_flatten_le seen fun other hother =>
    h other (List.mem_cons_of_mem _ hother)
  have hfree := hfirst (.inl rfl)
  rw [quoteChunks, List.flatten_cons, List.length_cons]
  omega

-- ======================================================== cuts at byte offsets

/-- The chunks of a text, cut at byte offsets. The chunk under way begins
at `start`, what is still to be read at `offset`, and the flags tell which
quotes the chunk holds. -/
def chunksAt? (cs : List Char) (start : Nat) (single double : Bool) (offset : Nat) :
    List Char → Option (List (List Char))
  | [] => (slice? cs start (byteLength cs)).map fun chunk => [chunk]
  | c :: rest =>
    if c = '\x27' ∧ double = true ∨ c = '\x22' ∧ single = true then
      (slice? cs start offset).bind fun chunk =>
        (chunksAt? cs offset (c == '\x27') (c == '\x22') (offset + c.utf8Size) rest).map
          (chunk :: ·)
    else
      chunksAt? cs start (single || c == '\x27') (double || c == '\x22') (offset + c.utf8Size)
        rest

theorem foldr_consFirst (under first : List Char) (rest : List (List Char)) :
    under.foldr consFirst (first :: rest) = (under ++ first) :: rest := by
  induction under with
  | nil => rfl
  | cons c under ih =>
    rw [List.foldr_cons, ih]
    rfl

/-- The flags say which quote has been seen. A quote closes the chunk if
the flag of the other kind is up, and one that goes with the chunk puts up
its own. -/
theorem flags_of_quote {seen : Option Char} {c : Char}
    (hseen : ∀ quote ∈ seen, isQuote quote = true) (hquote : c = '\x27' ∨ c = '\x22') :
    (c = '\x27' ∧ (seen == some '\x22') = true ∨ c = '\x22' ∧ (seen == some '\x27') = true ↔
      ¬ (seen = none ∨ seen = some c)) ∧
    ((seen = none ∨ seen = some c) → ((seen == some '\x27') || c == '\x27') = (c == '\x27') ∧
      ((seen == some '\x22') || c == '\x22') = (c == '\x22')) := by
  cases seen with
  | none => rcases hquote with rfl | rfl <;> decide
  | some quote =>
    have hquote' := isQuote_iff.1 (hseen quote rfl)
    rcases hquote' with rfl | rfl <;> rcases hquote with rfl | rfl <;> decide

/-- Between `front` and `rest` stands the part of the chunk under way that
has been read. -/
theorem chunksAt?_eq {seen : Option Char} (hseen : ∀ quote ∈ seen, isQuote quote = true)
    (front under rest : List Char) :
    chunksAt? (front ++ under ++ rest) (byteLength front) (seen == some '\x27')
        (seen == some '\x22') (byteLength (front ++ under)) rest
      = some (under.foldr consFirst (chunksFrom seen rest)) := by
  induction rest generalizing seen front under with
  | nil =>
    have hslice := slice?_append front under []
    rw [List.append_nil] at hslice
    rw [chunksAt?, chunksFrom, foldr_consFirst, List.append_nil, List.append_nil, hslice]
    rfl
  | cons c rest ih =>
    have htext : front ++ under ++ c :: rest = front ++ (under ++ [c]) ++ rest := by simp
    have hoffset : byteLength (front ++ under) + c.utf8Size
        = byteLength (front ++ (under ++ [c])) := by
      simp only [byteLength_append, byteLength_cons, byteLength_nil]
      omega
    rw [chunksAt?, chunksFrom]
    by_cases hquote : c = '\x27' ∨ c = '\x22'
    · have hcseen : ∀ quote ∈ some c, isQuote quote = true := by
        rintro _ ⟨rfl⟩
        exact isQuote_iff.2 hquote
      obtain ⟨hcloses, hflags⟩ := flags_of_quote hseen hquote
      rw [if_pos hquote]
      by_cases hgoes : seen = none ∨ seen = some c
      · obtain ⟨hsingle, hdouble⟩ := hflags hgoes
        have hnext := ih hcseen front (under ++ [c])
        rw [if_pos hgoes, if_neg fun h => hcloses.1 h hgoes, hsingle, hdouble, htext, hoffset]
        rw [List.foldr_append] at hnext
        exact hnext
      · have hslice := slice?_append front under (c :: rest)
        have hnext := ih hcseen (front ++ under) [c]
        rw [if_neg hgoes, if_pos (hcloses.2 hgoes), hslice, Option.bind_some, htext, hoffset,
          foldr_consFirst, List.append_nil, ← List.append_assoc front]
        exact congrArg (Option.map (under :: ·)) hnext
    · obtain ⟨hsingle, hdouble⟩ := not_or.1 hquote
      have hnext := ih hseen front (under ++ [c])
      rw [if_neg hquote, if_neg (by simp [hsingle, hdouble]), beq_eq_false_iff_ne.2 hsingle,
        beq_eq_false_iff_ne.2 hdouble, Bool.or_false, Bool.or_false, htext, hoffset]
      rw [List.foldr_append] at hnext
      exact hnext

/-- The chunks of a text are the text in pieces, each of which lacks one of
the quotes and none of which is empty if the text is not. With fewer
pieces of this kind the text cannot be had, unless it is empty and there
are none. The literal of a chunk, whatever it holds besides, is read as
one string, which is the chunk. And if the chunks are cut at byte offsets,
no cut falls inside a character. -/
theorem quoteChunks_fewest (s : String) :
    quoteChunks s.toList ≠ [] ∧ (quoteChunks s.toList).flatten = s.toList ∧
    (∀ chunk ∈ quoteChunks s.toList, ¬ ('\x27' ∈ chunk ∧ '\x22' ∈ chunk)) ∧
    (s ≠ "" → ∀ chunk ∈ quoteChunks s.toList, chunk ≠ []) ∧
    (∀ parts : List (List Char), parts.flatten = s.toList →
      (∀ part ∈ parts, '\x27' ∉ part ∨ '\x22' ∉ part) →
        (quoteChunks s.toList).length ≤ parts.length ∨ s = "" ∧ parts = []) ∧
    (∀ chunk ∈ quoteChunks s.toList, tokenize (Printer.chunk chunk)
      = .ok [⟨.string, .text (String.ofList chunk), ⟨0, byteLength chunk + 2⟩⟩]) ∧
    chunksAt? s.toList 0 false false 0 s.toList = some (quoteChunks s.toList) := by
  obtain ⟨hne, hquotes⟩ := quoteChunks_quotes s.toList
  refine ⟨hne, flatten_chunksFrom none s.toList, fun chunk hchunk => ?_, fun hs chunk hchunk => ?_,
    fun parts hflat hparts => ?_, fun chunk hchunk => ?_, ?_⟩
  · rintro ⟨hsingle, hdouble⟩
    exact (exists_quotes_iff_lacks.1 (hquotes chunk hchunk)).elim (· hsingle) (· hdouble)
  · exact quoteChunks_filled (mt String.toList_eq_nil_iff.1 hs) hchunk
  · cases parts with
    | nil => exact .inr ⟨String.toList_eq_nil_iff.1 hflat.symm, rfl⟩
    | cons part parts =>
      rw [← hflat]
      have hquotes := fun other hother => exists_quotes_iff_lacks.2 (hparts other hother)
      exact .inl (length_quoteChunks_le hquotes)
  · obtain ⟨quote, hquote⟩ := hquotes chunk hchunk
    exact tokenize_chunk hquote
  · have hnone : ∀ quote ∈ (none : Option Char), isQuote quote = true := nofun
    exact chunksAt?_eq hnone [] [] s.toList

/-- A text with both quotes, a character of two bytes and a line end. -/
def quotedText : String := "'\"é\n\"'"

/-- The other cut has a chunk in two parts. -/
theorem quoteChunks_fewest_quoted :
    quoteChunks quotedText.toList = [['\x27'], ['\x22', 'é', '\n', '\x22'], ['\x27']] ∧
      quotedText ≠ "" ∧ (∀ chunk ∈ quoteChunks quotedText.toList, chunk ≠ []) ∧
      (∃ parts : List (List Char), parts.flatten = quotedText.toList ∧
        (∀ part ∈ parts, '\x27' ∉ part ∨ '\x22' ∉ part) ∧
        (quoteChunks quotedText.toList).length ≤ parts.length) ∧
      tokenize (Printer.chunk ['\x22', 'é', '\n', '\x22'])
        = .ok [⟨.string, .text "\"é\n\"", ⟨0, 7⟩⟩] := by
  have hchunks : quoteChunks quotedText.toList
      = [['\x27'], ['\x22', 'é', '\n', '\x22'], ['\x27']] := by decide +kernel
  have hne : quotedText ≠ "" := by decide +kernel
  obtain ⟨-, -, -, hfilled, hfewest, htoken, -⟩ := quoteChunks_fewest quotedText
  have hflat : [['\x27'], ['\x22', 'é'], ['\n', '\x22'], ['\x27']].flatten = quotedText.toList := by
    decide +kernel
  have hparts : ∀ part ∈ [['\x27'], ['\x22', 'é'], ['\n', '\x22'], ['\x27']],
      '\x27' ∉ part ∨ '\x22' ∉ part := by decide
  have hlength := (hfewest _ hflat hparts).resolve_right fun h => hne h.1
  exact ⟨hchunks, hne, hfilled hne, ⟨_, hflat, hparts, hlength⟩,
    htoken _ (hchunks ▸ List.mem_cons_of_mem _ List.mem_cons_self)⟩

end Reckoner.Printer
