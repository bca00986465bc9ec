/-
Tokens without their places. Where a token stands matters to messages
alone, so most questions about a text are about its words: the kinds and
payloads of its tokens, in order.

Two things are settled here. Every word of a text is of a certain form:
a number has no sign, a string lacks one of the quotes, a name is made of
the characters of names, and a sign has the kind of its own. And a text
put together from pieces has the words of the pieces, one after another,
as long as no piece runs into the next. The second makes it possible to
follow how a text was written instead of how it is split.
-/
import Reckoner.Proofs.Lexing.Seam

namespace Reckoner

/-- What a token says, wherever it stands. -/
abbrev Word := TokenKind × Payload

/-- The word of a token. -/
def Token.word (t : Token) : Word := (t.kind, t.payload)

/-- Do the kind of a token and what it carries agree? They do in every
token of a source text; tokens put together by hand may differ. -/
def Token.agrees (t : Token) : Bool :=
  match t.kind, t.payload with
  | .number, .number _ => true
  | .string, .text _ => true
  | .identifier, .text _ => true
  | kind, .symbol sign => TokenKind.ofSymbol? sign == some kind
  | _, _ => false

namespace Lexer

-- =================================================== the form of words

/-- Is the text a name? -/
def isName (s : String) : Bool :=
  match s.toList with
  | [] => false
  | c :: cs => startsName c && cs.all continuesName

/-- The form of the words that a text can have. -/
def Lexical : Word → Prop
  | (.number, .number x) => x.isNegative = false
  | (.string, .text s) => ∃ quote, isQuote quote = true ∧ quote ∉ s.toList
  | (.identifier, .text s) => isName s = true
  | (kind, .symbol c) => TokenKind.ofSymbol? c = some kind
  | _ => False

/-- A literal without a sign denotes nothing negative. -/
theorem ofLiteral_isNegative (cs : List Char) :
    (Binary64.ofLiteral false cs).isNegative = false := by
  unfold Binary64.ofLiteral
  split <;> rfl

/-- No run up to a character holds it. -/
theorem not_mem_takeWhile_ne (c : Char) (cs : List Char) : c ∉ cs.takeWhile (· != c) := by
  intro hmem
  have hrun := List.all_takeWhile (p := (· != c)) (l := cs)
  rw [List.all_eq_true] at hrun
  simpa using hrun c hmem

/-- What is scanned is a word that a source can have. -/
theorem scan_lexical {position : Nat} {c : Char} {cs : List Char} {lexeme : Lexeme} {word : Word}
    (h : scan position c cs = .ok lexeme) (hword : lexeme.meaning = some word) :
    Lexical word := by
  unfold scan at h
  split at h
  · unfold scanNumber at h
    dsimp only at h
    split at h
    · cases h
    · cases h
      cases hword
      exact ofLiteral_isNegative _
  · split at h
    · next hquote =>
      unfold scanString at h
      dsimp only at h
      split at h
      · cases h
        cases hword
        refine ⟨c, hquote, ?_⟩
        rw [String.toList_ofList]
        exact not_mem_takeWhile_ne c cs
      · cases h
    · split at h
      · next hname =>
        cases h
        cases hword
        show isName _ = true
        simp [isName, String.toList_ofList, hname]
      · split at h
        · next kind hkind =>
          cases h
          cases hword
          cases kind <;> exact hkind
        · split at h
          · cases h
            cases hword
          · cases h

/-- Every token of a text is a word of that form. -/
theorem tokensFrom_lexical {position : Nat} {cs : List Char} {tokens : List Token}
    (h : tokensFrom position cs = .ok tokens) : ∀ t ∈ tokens, Lexical t.word := by
  cases cs with
  | nil =>
    rw [tokensFrom_nil] at h
    injection h with h
    subst h
    exact fun t ht => absurd ht List.not_mem_nil
  | cons c cs =>
    obtain ⟨lexeme, rest, others, hscan, rfl, hothers, rfl⟩ := tokensFrom_cons_ok h
    have ih := tokensFrom_lexical hothers
    unfold Lexeme.prepend
    split
    · next kind payload hmeaning =>
      intro t ht
      rcases List.mem_cons.1 ht with rfl | ht
      · exact scan_lexical hscan hmeaning
      · exact ih t ht
    · exact ih
termination_by cs.length
decreasing_by
  subst_vars
  simp only [List.length_cons, List.length_append]
  omega

/-- In a word of that form the payload is the one of its kind. -/
theorem Lexical.agrees {t : Token} (h : Lexical t.word) : t.agrees = true := by
  obtain ⟨kind, payload, span⟩ := t
  cases kind <;> cases payload <;>
    first
    | rfl
    | exact beq_iff_eq.2 h
    | exact False.elim h

-- ======================================================= one word alone

theorem isName_iff {s : String} : isName s = true ↔
    ∃ c cs, s.toList = c :: cs ∧ startsName c = true ∧ ∀ d ∈ cs, continuesName d = true := by
  unfold isName
  cases s.toList <;> simp [and_assoc]

/-- The kinds of words that are no signs. -/
theorem ofSymbol?_ne {c : Char} {kind : TokenKind} (h : TokenKind.ofSymbol? c = some kind) :
    kind ≠ .number ∧ kind ≠ .string ∧ kind ≠ .identifier := by
  unfold TokenKind.ofSymbol? at h
  repeat' split at h
  all_goals cases h <;> decide

/-- A sign takes no character that comes behind it. -/
theorem merges_sign {c : Char} {kind : TokenKind} (h : TokenKind.ofSymbol? c = some kind)
    (d : Char) : merges kind d = false := by
  obtain ⟨hnumber, -, hidentifier⟩ := ofSymbol?_ne h
  cases kind <;> first | rfl | contradiction

/-- A sign is no part of anything longer. -/
theorem scan_sign {c : Char} {kind : TokenKind} (h : TokenKind.ofSymbol? c = some kind)
    (position : Nat) (cs : List Char) :
    scan position c cs = .ok ⟨some (kind, .symbol c), []⟩ := by
  have hclasses : startsNumber c = false ∧ isQuote c = false ∧ startsName c = false := by
    unfold TokenKind.ofSymbol? at h
    repeat' split at h
    all_goals first
      | (rename_i hc; rcases hc with rfl | rfl | rfl | rfl <;> decide)
      | cases h
  obtain ⟨hnumber, hquote, hname⟩ := hclasses
  unfold scan
  rw [hnumber, hquote, hname, h]
  rfl

theorem startsName_of_isDigit {c : Char} (h : c.isDigit = true) : startsName c = false := by
  simp only [Char.isDigit, Bool.and_eq_true, decide_eq_true_eq, UInt32.le_iff_toNat_le] at h
  obtain ⟨hlow, hhigh⟩ := h
  have hne (d : Char) (hd : d.val.toNat < 48 ∨ 57 < d.val.toNat) : (c == d) = false := by
    rw [beq_eq_false_iff_ne]
    rintro rfl
    have h0 : '0'.val.toNat = 48 := rfl
    have h9 : '9'.val.toNat = 57 := rfl
    omega
  have halpha : c.isAlpha = false := by
    unfold Char.isAlpha Char.isUpper Char.isLower
    simp only [Bool.or_eq_false_iff, Bool.and_eq_false_iff, decide_eq_false_iff_not,
      UInt32.le_iff_toNat_le]
    have h9 : '9'.val.toNat = 57 := rfl
    have hA : 'A'.val.toNat = 65 := rfl
    have ha : 'a'.val.toNat = 97 := rfl
    omega
  rw [startsName, halpha, hne '_' (by decide), hne '$' (by decide)]
  rfl

/-- What begins a name begins nothing else. -/
theorem startsName_only {c : Char} (h : startsName c = true) :
    startsNumber c = false ∧ isQuote c = false := by
  have hne (d : Char) (hd : startsName d = false) : (c == d) = false := by
    rw [beq_eq_false_iff_ne]
    rintro rfl
    rw [h] at hd
    cases hd
  have hdigit : c.isDigit = false := by
    rw [Bool.eq_false_iff]
    intro hdigit
    rw [startsName_of_isDigit hdigit] at h
    cases h
  constructor
  · rw [startsNumber, hdigit, hne '.' (by decide)]
    rfl
  · rw [isQuote, hne _ (by decide), hne _ (by decide)]
    rfl

/-- A name is scanned as far as it goes. -/
theorem scan_name {c : Char} {cs : List Char} (hfirst : startsName c = true)
    (hrest : ∀ d ∈ cs, continuesName d = true) (position : Nat) :
    scan position c cs = .ok ⟨some (.identifier, .text (String.ofList (c :: cs))), cs⟩ := by
  obtain ⟨hnumber, hquote⟩ := startsName_only hfirst
  have hall : cs.takeWhile continuesName = cs := by
    rw [← List.append_nil cs, List.takeWhile_append_of_pos hrest]
    rfl
  unfold scan
  rw [if_neg (by rw [hnumber]; decide), if_neg (by rw [hquote]; decide), if_pos hfirst, scanName,
    hall]

theorem isQuote_iff {c : Char} : isQuote c = true ↔ c = '\x27' ∨ c = '\x22' := by
  simp [isQuote]

/-- A string is scanned up to its second quote. -/
theorem scan_string {quote : Char} {cs : List Char} (hquote : isQuote quote = true)
    (h : quote ∉ cs) (position : Nat) :
    scan position quote (cs ++ [quote])
      = .ok ⟨some (.string, .text (String.ofList cs)), cs ++ [quote]⟩ := by
  have hnumber : startsNumber quote = false := by
    rcases isQuote_iff.1 hquote with rfl | rfl <;> decide
  have hcontent : (cs ++ [quote]).takeWhile (· != quote) = cs := by
    rw [List.takeWhile_append_of_pos]
    · simp
    · intro c hc
      simp only [bne_iff_ne, ne_eq]
      rintro rfl
      exact h hc
  unfold scan
  rw [if_neg (by rw [hnumber]; decide), if_pos hquote, scanString, hcontent,
    if_pos (List.mem_append_right _ (List.mem_singleton_self _))]

/-- A number is scanned as far as its characters go. -/
theorem scan_number {c : Char} {cs : List Char} (hnumber : startsNumber c = true)
    (h : numeral (c :: cs) = c :: cs) (position : Nat) :
    scan position c cs = .ok ⟨some (.number, .number (.ofLiteral false (c :: cs))), cs⟩ := by
  unfold scan scanNumber
  rw [if_pos hnumber, h]
  dsimp only
  rw [List.drop_length, if_neg (by simp)]
  rfl

-- ============================================================== readings

/-- The text is split into tokens with these words, wherever it begins. -/
def Reads (cs : List Char) (words : List Word) : Prop :=
  ∀ position, ∃ tokens, tokensFrom position cs = .ok tokens ∧ tokens.map Token.word = words

namespace Reads

variable {cs ds : List Char} {words others : List Word}

theorem nil : Reads [] [] := fun position => ⟨[], tokensFrom_nil position, rfl⟩

/-- Pieces of text are read one after another, as long as the last word
of the first does not run into the second. -/
theorem append (hcs : Reads cs words) (hds : Reads ds others)
    (hseam : ∀ word ∈ words.getLast?, Apart word.1 ds) : Reads (cs ++ ds) (words ++ others) := by
  intro position
  obtain ⟨tokens, htokens, rfl⟩ := hcs position
  obtain ⟨tokens', htokens', rfl⟩ := hds (position + Text.byteLength cs)
  refine ⟨tokens ++ tokens', ?_, List.map_append⟩
  rw [tokensFrom_append htokens, htokens']
  · rfl
  · intro t ht _
    refine hseam t.word ?_
    rw [List.getLast?_map, ht]
    rfl

theorem lexeme {c : Char} {word : Word}
    (h : ∀ position, scan position c cs = .ok ⟨some word, cs⟩) : Reads (c :: cs) [word] := by
  intro position
  refine ⟨[⟨word.1, word.2, position, position + Text.byteLength (c :: cs)⟩], ?_, rfl⟩
  rw [tokensFrom_cons (h position), List.drop_length, tokensFrom_nil]
  rfl

theorem space : Reads [' '] [] := by
  intro position
  refine ⟨[], ?_, rfl⟩
  have hscan : scan position ' ' [] = .ok ⟨none, []⟩ := by
    unfold scan
    rw [if_neg (by decide), if_neg (by decide), if_neg (by decide)]
    rfl
  rw [tokensFrom_cons hscan, List.drop_nil, tokensFrom_nil]
  rfl

theorem sign {c : Char} {kind : TokenKind} (h : TokenKind.ofSymbol? c = some kind) :
    Reads [c] [(kind, .symbol c)] :=
  lexeme (scan_sign h · [])

theorem name {s : String} (h : isName s = true) : Reads s.toList [(.identifier, .text s)] := by
  obtain ⟨c, cs, hs, hfirst, hrest⟩ := isName_iff.1 h
  rw [hs, ← String.ofList_toList (s := s), hs]
  exact lexeme (scan_name hfirst hrest)

/-- A text without a quote is read from between two of them. -/
theorem string {quote : Char} (hquote : isQuote quote = true) (h : quote ∉ cs) :
    Reads (quote :: (cs ++ [quote])) [(.string, .text (String.ofList cs))] :=
  lexeme (scan_string hquote h)

theorem numeral {c : Char} (hnumber : startsNumber c = true)
    (h : Lexer.numeral (c :: cs) = c :: cs) :
    Reads (c :: cs) [(.number, .number (.ofLiteral false (c :: cs)))] :=
  lexeme (scan_number hnumber h)

-- ------------------------------------------------------ signs and spaces

/-- Can the character stand right behind any token and not be part of
it? -/
def parts (c : Char) : Bool := !(startsNumber c || continuesName c)

/-- Such a character keeps every token apart from what comes behind. -/
theorem apart_of_parts {c : Char} (h : parts c = true) (kind : TokenKind) (ds : List Char) :
    Apart kind (c :: ds) := by
  intro d hd
  obtain rfl : c = d := by simpa using hd
  simp only [parts, Bool.not_eq_true', Bool.or_eq_false_iff] at h
  cases kind <;> first | exact h.1 | exact h.2 | rfl

/-- A text may go on behind a piece with any such character. -/
theorem append_parts {c : Char} (hcs : Reads cs words) (hc : parts c = true)
    (hds : Reads (c :: ds) others) : Reads (cs ++ c :: ds) (words ++ others) :=
  hcs.append hds fun _ _ => apart_of_parts hc _ _

theorem cons_sign {c : Char} {kind : TokenKind} (hc : TokenKind.ofSymbol? c = some kind)
    (hcs : Reads cs words) : Reads (c :: cs) ((kind, .symbol c) :: words) := by
  refine (sign hc).append hcs fun word hword d _ => ?_
  obtain rfl : (kind, Payload.symbol c) = word := by simpa using hword
  exact merges_sign hc d

theorem cons_space (hcs : Reads cs words) : Reads (' ' :: cs) words :=
  space.append hcs (by simp)

end Reads

end Lexer

end Reckoner
