/-
The chunks a text is printed in. A literal cannot hold the quote it
stands in, so a text with quotes of both kinds is cut into chunks that
hold one kind at most, and put together again when it is evaluated. Both
facts are needed of the cut: what each chunk lacks, so that it has a
literal, and that the chunks are the text.
-/
import Reckoner.Program.Printer
import Reckoner.Proofs.Lexing.Words

namespace Reckoner.Printer

open Lexer

/-- The only quote that may stand in the text is `quote`. -/
def Quotes (quote : Char) (cs : List Char) : Prop :=
  isQuote quote = true ∧ ∀ c ∈ cs, isQuote c = true → c = quote

theorem Quotes.nil {quote : Char} (h : isQuote quote = true) : Quotes quote [] :=
  ⟨h, fun _ hc => absurd hc List.not_mem_nil⟩

theorem Quotes.cons {quote c : Char} {cs : List Char} (hcs : Quotes quote cs)
    (hc : isQuote c = true → c = quote) : Quotes quote (c :: cs) := by
  refine ⟨hcs.1, fun d hd => ?_⟩
  rcases List.mem_cons.1 hd with rfl | hd
  · exact hc
  · exact hcs.2 d hd

/-- Without one of the quotes, a text holds the other at most. -/
theorem exists_quotes {quote : Char} {cs : List Char} (hquote : isQuote quote = true)
    (h : quote ∉ cs) : ∃ other, Quotes other cs := by
  rcases isQuote_iff.1 hquote with rfl | rfl
  · refine ⟨'\x22', rfl, fun c hc hc' => (isQuote_iff.1 hc').resolve_left ?_⟩
    rintro rfl
    exact h hc
  · refine ⟨'\x27', rfl, fun c hc hc' => (isQuote_iff.1 hc').resolve_right ?_⟩
    rintro rfl
    exact h hc

/-- A text in which one kind of quote may stand lacks one. -/
theorem exists_quotes_iff {cs : List Char} :
    (∃ quote, Quotes quote cs) ↔ ∃ quote, isQuote quote = true ∧ quote ∉ cs := by
  constructor
  · rintro ⟨quote, hquote, hall⟩
    have hother : ∃ other, isQuote other = true ∧ other ≠ quote := by
      rcases isQuote_iff.1 hquote with rfl | rfl
      · exact ⟨'\x22', rfl, by decide⟩
      · exact ⟨'\x27', rfl, by decide⟩
    obtain ⟨other, hisquote, hne⟩ := hother
    exact ⟨other, hisquote, fun hmem => hne (hall other hmem hisquote)⟩
  · rintro ⟨quote, hquote, hmem⟩
    exact exists_quotes hquote hmem

theorem exists_quotes_iff_lacks {cs : List Char} :
    (∃ quote, Quotes quote cs) ↔ '\x27' ∉ cs ∨ '\x22' ∉ cs := by
  rw [exists_quotes_iff]
  constructor
  · rintro ⟨quote, hquote, hfree⟩
    rcases isQuote_iff.1 hquote with rfl | rfl
    · exact .inl hfree
    · exact .inr hfree
  · rintro (hfree | hfree)
    · exact ⟨'\x27', rfl, hfree⟩
    · exact ⟨'\x22', rfl, hfree⟩

/-- The chunk under way holds no quote but the one seen, and every chunk
behind it holds one kind at most. -/
theorem chunksFrom_quotes (seen : Option Char) (cs : List Char)
    (hseen : ∀ quote ∈ seen, isQuote quote = true) :
    ∃ first rest, chunksFrom seen cs = first :: rest ∧
      (∃ quote, (seen = none ∨ seen = some quote) ∧ Quotes quote first) ∧
      ∀ chunk ∈ rest, ∃ quote, Quotes quote chunk := by
  induction cs generalizing seen with
  | nil =>
    refine ⟨[], [], rfl, ?_, fun _ h => absurd h List.not_mem_nil⟩
    cases seen with
    | none => exact ⟨'\x27', .inl rfl, .nil rfl⟩
    | some quote => exact ⟨quote, .inr rfl, .nil (hseen quote rfl)⟩
  | cons c cs ih =>
    unfold chunksFrom
    by_cases hquote : c = '\x27' ∨ c = '\x22'
    · obtain ⟨first, rest, hchunks, ⟨quote, hfirst, hholds⟩, hrest⟩ :=
        ih (some c) (by rintro _ ⟨rfl⟩; exact isQuote_iff.2 hquote)
      obtain rfl : c = quote := by simpa using hfirst
      have hunder : Quotes c (c :: first) := hholds.cons fun _ => rfl
      rw [if_pos hquote, hchunks]
      by_cases hgoes : seen = none ∨ seen = some c
      · rw [if_pos hgoes]
        exact ⟨c :: first, rest, rfl, ⟨c, hgoes, hunder⟩, hrest⟩
      · rw [if_neg hgoes]
        refine ⟨[], (c :: first) :: rest, rfl, ?_, ?_⟩
        · cases seen with
          | none => exact absurd (.inl rfl) hgoes
          | some quote => exact ⟨quote, .inr rfl, .nil (hseen quote rfl)⟩
        · intro chunk hchunk
          rcases List.mem_cons.1 hchunk with rfl | hchunk
          · exact ⟨c, hunder⟩
          · exact hrest chunk hchunk
    · obtain ⟨first, rest, hchunks, ⟨quote, hfirst, hholds⟩, hrest⟩ := ih seen hseen
      rw [if_neg hquote, hchunks]
      refine ⟨c :: first, rest, rfl, ⟨quote, hfirst, hholds.cons fun hc => ?_⟩, hrest⟩
      exact absurd (isQuote_iff.1 hc) hquote

theorem flatten_consFirst (c : Char) (chunks : List (List Char)) :
    (consFirst c chunks).flatten = c :: chunks.flatten := by
  cases chunks <;> rfl

/-- The chunks make up the text. -/
theorem flatten_chunksFrom (seen : Option Char) (cs : List Char) :
    (chunksFrom seen cs).flatten = cs := by
  induction cs generalizing seen with
  | nil => rfl
  | cons c cs ih =>
    unfold chunksFrom
    split
    · split
      · rw [flatten_consFirst, ih]
      · rw [List.flatten_cons, List.nil_append, flatten_consFirst, ih]
    · rw [flatten_consFirst, ih]

/-- A text has a chunk at least, and its chunks hold one kind of quote at
most. -/
theorem quoteChunks_quotes (cs : List Char) :
    quoteChunks cs ≠ [] ∧ ∀ chunk ∈ quoteChunks cs, ∃ quote, Quotes quote chunk := by
  obtain ⟨first, rest, hchunks, ⟨quote, -, hfirst⟩, hrest⟩ :=
    chunksFrom_quotes none cs (fun _ h => by cases h)
  rw [quoteChunks, hchunks]
  refine ⟨List.cons_ne_nil _ _, fun chunk hchunk => ?_⟩
  rcases List.mem_cons.1 hchunk with rfl | hchunk
  · exact ⟨quote, hfirst⟩
  · exact hrest chunk hchunk

/-- A text without quotes of one kind is a single chunk. -/
theorem chunksFrom_of_quotes {quote : Char} {cs : List Char} (h : Quotes quote cs)
    {seen : Option Char} (hseen : seen = none ∨ seen = some quote) :
    chunksFrom seen cs = [cs] := by
  induction cs generalizing seen with
  | nil => rfl
  | cons c cs ih =>
    have hcs : Quotes quote cs := ⟨h.1, fun d hd => h.2 d (List.mem_cons_of_mem _ hd)⟩
    unfold chunksFrom
    by_cases hquote : c = '\x27' ∨ c = '\x22'
    · obtain rfl : c = quote := h.2 c List.mem_cons_self (isQuote_iff.2 hquote)
      rw [if_pos hquote, if_pos hseen, ih hcs (.inr rfl)]
      rfl
    · rw [if_neg hquote, ih hcs hseen]
      rfl

/-- The literal of a chunk is the chunk between two quotes of a kind that it
does not hold. -/
theorem toList_chunk {quote : Char} {cs : List Char} (h : Quotes quote cs) :
    ∃ around, isQuote around = true ∧ around ∉ cs ∧
      (chunk cs).toList = around :: (cs ++ [around]) := by
  unfold chunk
  by_cases hsingle : '\x27' ∈ cs
  · have hdouble : '\x22' ∉ cs :=
      (exists_quotes_iff_lacks.1 ⟨quote, h⟩).resolve_left (not_not_intro hsingle)
    rw [if_pos hsingle]
    exact ⟨'\x22', by decide, hdouble, by simp [String.toList_append, String.toList_ofList]⟩
  · rw [if_neg hsingle]
    exact ⟨'\x27', by decide, hsingle, by simp [String.toList_append, String.toList_ofList]⟩

/-- The literal of a chunk is read as the chunk. -/
theorem reads_chunk {quote : Char} {cs : List Char} (h : Quotes quote cs) :
    Reads (chunk cs).toList [(.string, .text (String.ofList cs))] := by
  obtain ⟨around, haround, hfree, htext⟩ := toList_chunk h
  rw [htext]
  exact .string haround hfree

end Reckoner.Printer
