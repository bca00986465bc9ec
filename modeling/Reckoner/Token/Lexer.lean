/-
Splitting a source text into tokens. The text is read from the front, and
its first character decides what stands there: a number, a string, a
name, a sign, a blank, or something that has no place in a source. Each
takes as many further characters as belong to it, so what is left is
always shorter and the split ends.

A number is digits with at most one point among them, and it is the point
that would be the second, not the number, that is at fault. A string runs
to the next quote of the kind that opened it and knows no escapes.
-/
import Reckoner.Decimal.Reading
import Reckoner.Text.Blank
import Reckoner.Text.Bytes
import Reckoner.Token.Basic

namespace Reckoner

/-- Why a text cannot be split into tokens. Positions are byte offsets. -/
inductive LexError where
  /-- A character that begins no token. -/
  | invalidCharacter (character : Char) (position : Nat)
  /-- A second point in a number. -/
  | malformedNumber (position : Nat)
  /-- A string without its closing quote, at the quote that opens it. -/
  | unterminatedString (position : Nat)
deriving DecidableEq

namespace Lexer

-- ================================================== character classes

/-- Does the character begin a number? -/
def startsNumber (c : Char) : Bool := c.isDigit || c == '.'

/-- Does the character open a string? -/
def isQuote (c : Char) : Bool := c == '\x27' || c == '\x22'

/-- Does the character begin a name? Letters are those of ASCII. -/
def startsName (c : Char) : Bool := c.isAlpha || c == '_' || c == '$'

/-- Can the character stand in a name after the first? -/
def continuesName (c : Char) : Bool := c.isAlphanum || c == '_' || c == '$'

-- ============================================================ lexemes

/-- What stands at the front of a text: what it means, if it is a token,
and the characters after the first that belong to it. -/
structure Lexeme where
  meaning : Option (TokenKind × Payload)
  more : List Char

/-- The longest front part made of digits with at most one point. -/
def numeral (cs : List Char) : List Char :=
  cs.takeWhile Char.isDigit ++
    match cs.dropWhile Char.isDigit with
    | '.' :: rest => '.' :: rest.takeWhile Char.isDigit
    | _ => []

/-- The number at the front of a text, refused if a second point follows
it. A lone point is a numeral that denotes no number. -/
def scanNumber (position : Nat) (cs : List Char) : Except LexError Lexeme :=
  let digits := numeral cs
  if (cs.drop digits.length).head? = some '.' then
    .error (.malformedNumber (position + Text.byteLength digits))
  else .ok ⟨some (.number, .number (.ofLiteral false digits)), digits.tail⟩

/-- The string that `quote` opens before a text. -/
def scanString (position : Nat) (quote : Char) (cs : List Char) : Except LexError Lexeme :=
  let content := cs.takeWhile (· != quote)
  if quote ∈ cs then
    .ok ⟨some (.string, .text (String.ofList content)), content ++ [quote]⟩
  else .error (.unterminatedString position)

/-- The name that begins with `first` before a text. -/
def scanName (first : Char) (cs : List Char) : Lexeme :=
  let more := cs.takeWhile continuesName
  ⟨some (.identifier, .text (String.ofList (first :: more))), more⟩

/-- What stands at the front of the text `c :: cs`. -/
def scan (position : Nat) (c : Char) (cs : List Char) : Except LexError Lexeme :=
  if startsNumber c then scanNumber position (c :: cs)
  else if isQuote c then scanString position c cs
  else if startsName c then .ok (scanName c cs)
  else match TokenKind.ofSymbol? c with
    | some kind => .ok ⟨some (kind, .symbol c), []⟩
    | none =>
      if Text.isBlank c then .ok ⟨none, []⟩
      else .error (.invalidCharacter c position)

-- ============================================== nothing is passed over

theorem numeral_front (cs : List Char) : numeral cs <+: cs := by
  unfold numeral
  conv => rhs; rw [← List.takeWhile_append_dropWhile (p := Char.isDigit) (l := cs)]
  rw [List.prefix_append_right_inj]
  split
  · next rest heq =>
    rw [heq, List.cons_prefix_cons]
    exact ⟨rfl, List.takeWhile_prefix _⟩
  · exact List.nil_prefix

/-- A text that begins like a number has a numeral at its front. -/
theorem numeral_ne_nil {c : Char} (h : startsNumber c = true) (cs : List Char) :
    numeral (c :: cs) ≠ [] := by
  unfold numeral
  by_cases digit : c.isDigit = true
  · simp [digit]
  · have : c = '.' := by simpa [startsNumber, digit] using h
    subst this
    simp [digit]

/-- Up to a character and it included is the front of a text. -/
theorem takeWhile_append_singleton_front {quote : Char} {cs : List Char} (h : quote ∈ cs) :
    cs.takeWhile (· != quote) ++ [quote] <+: cs := by
  induction cs with
  | nil => cases h
  | cons c cs ih =>
    by_cases same : c = quote
    · simp [same]
    · have : quote ∈ cs := by simpa [Ne.symm same] using h
      simpa [List.takeWhile_cons, same, List.cons_prefix_cons] using ih this

/-- What a lexeme takes after its first character is the front of what
stands there. -/
theorem more_front {position : Nat} {c : Char} {cs : List Char} {lexeme : Lexeme}
    (h : scan position c cs = .ok lexeme) : lexeme.more <+: cs := by
  unfold scan at h
  split at h
  · next number =>
    unfold scanNumber at h
    dsimp only at h
    split at h
    · cases h
    · cases h
      obtain ⟨rest, hrest⟩ := numeral_front (c :: cs)
      obtain ⟨d, ds, hds⟩ := List.exists_cons_of_ne_nil (numeral_ne_nil number cs)
      rw [hds, List.cons_append, List.cons.injEq] at hrest
      exact ⟨rest, by simpa [hds] using hrest.2⟩
  · split at h
    · unfold scanString at h
      dsimp only at h
      split at h
      · next mem => cases h; exact takeWhile_append_singleton_front mem
      · cases h
    · split at h
      · cases h; exact List.takeWhile_prefix _
      · split at h
        · cases h; exact List.nil_prefix
        · split at h
          · cases h; exact List.nil_prefix
          · cases h

-- ========================================================= whole texts

/-- The tokens of a text that begins at `position`. -/
def tokensFrom (position : Nat) : List Char → Except LexError (List Token)
  | [] => .ok []
  | c :: cs => do
    let lexeme ← scan position c cs
    let stop := position + Text.byteLength (c :: lexeme.more)
    let tokens ← tokensFrom stop (cs.drop lexeme.more.length)
    return match lexeme.meaning with
      | some (kind, payload) => ⟨kind, payload, ⟨position, stop⟩⟩ :: tokens
      | none => tokens
termination_by cs => cs.length
decreasing_by simp only [List.length_drop, List.length_cons]; omega

end Lexer

/-- The tokens of a source text, in order. -/
def tokenize (source : String) : Except LexError (List Token) :=
  Lexer.tokensFrom 0 source.toList

end Reckoner
