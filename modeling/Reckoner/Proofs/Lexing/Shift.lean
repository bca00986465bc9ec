/-
Texts that begin later. A position is only ever added to: the lexer never
looks at where it is, so a text that begins further to the right is split
in the same way, with everything further to the right by as much. That
holds of the failures too, and one lexeme decides each step.

Together with the seam this gives the tokens of a text that is put
together from two: those of the first, and those of the second moved.
-/
import Reckoner.Diagnostic
import Reckoner.Proofs.Lexing.Tiling

namespace Reckoner

/-- The token moved to the right. -/
def Token.shift (t : Token) (distance : Nat) : Token := { t with span := t.span.shift distance }

/-- The failure moved to the right. -/
def LexError.shift : LexError → Nat → LexError
  | .invalidCharacter c position, distance => .invalidCharacter c (position + distance)
  | .malformedNumber position, distance => .malformedNumber (position + distance)
  | .unterminatedString position, distance => .unterminatedString (position + distance)

namespace Lexer

variable {position : Nat} {c : Char} {cs : List Char}

/-- A number is read alike further on, and so is its error. -/
theorem scanNumber_shift (position distance : Nat) (cs : List Char) :
    scanNumber (position + distance) cs
      = (scanNumber position cs).mapError (·.shift distance) := by
  unfold scanNumber
  dsimp only
  split
  · rw [Nat.add_right_comm]
    rfl
  · rfl

/-- So is a string. -/
theorem scanString_shift (position distance : Nat) (quote : Char) (cs : List Char) :
    scanString (position + distance) quote cs
      = (scanString position quote cs).mapError (·.shift distance) := by
  unfold scanString
  dsimp only
  split <;> rfl

/-- What stands at the front of a text is the same wherever it stands. -/
theorem scan_shift (position distance : Nat) (c : Char) (cs : List Char) :
    scan (position + distance) c cs = (scan position c cs).mapError (·.shift distance) := by
  unfold scan
  split
  · exact scanNumber_shift position distance (c :: cs)
  · split
    · exact scanString_shift position distance c cs
    · split
      · rfl
      · split
        · rfl
        · split <;> rfl

theorem tokensFrom_cons_error {e : LexError} (h : scan position c cs = .error e) :
    tokensFrom position (c :: cs) = .error e := by
  rw [tokensFrom, h]
  rfl

theorem Lexeme.prepend_shift (lexeme : Lexeme) (span : Span) (tokens : List Token)
    (distance : Nat) : (lexeme.prepend span tokens).map (·.shift distance)
      = lexeme.prepend (span.shift distance) (tokens.map (·.shift distance)) := by
  unfold Lexeme.prepend
  split <;> rfl

/-- A text that begins later is split into the same tokens, that much
later, or fails in the same way. -/
theorem tokensFrom_shift (position distance : Nat) (cs : List Char) :
    tokensFrom (position + distance) cs = ((tokensFrom position cs).map
      (List.map (·.shift distance))).mapError (·.shift distance) := by
  cases cs with
  | nil =>
    rw [tokensFrom_nil, tokensFrom_nil]
    rfl
  | cons c cs =>
    have hshift := scan_shift position distance c cs
    cases hscan : scan position c cs with
    | error e =>
      rw [hscan] at hshift
      rw [tokensFrom_cons_error hscan, tokensFrom_cons_error hshift]
      rfl
    | ok lexeme =>
      rw [hscan] at hshift
      have hstop : position + distance + Text.byteLength (c :: lexeme.more)
          = position + Text.byteLength (c :: lexeme.more) + distance := by omega
      rw [tokensFrom_cons hscan, tokensFrom_cons hshift, hstop,
        tokensFrom_shift (position + Text.byteLength (c :: lexeme.more)) distance]
      cases tokensFrom (position + Text.byteLength (c :: lexeme.more))
          (cs.drop lexeme.more.length) with
      | error e => rfl
      | ok tokens =>
        have hprepend := lexeme.prepend_shift
          ⟨position, position + Text.byteLength (c :: lexeme.more)⟩ tokens distance
        exact congrArg Except.ok hprepend.symm
termination_by cs.length
decreasing_by
  subst_vars
  simp only [List.length_cons, List.length_drop]
  omega

end Lexer

/-- The tokens of two sources, one behind the other, are those of the first
and those of the second moved behind it, as long as the last token of the
first does not run into the second. -/
theorem tokenize_append {a b : String} {tokens : List Token} (h : tokenize a = .ok tokens)
    (hseam : ∀ t ∈ tokens.getLast?, t.span.stop = a.utf8ByteSize →
      Lexer.Apart t.kind b.toList) :
    tokenize (a ++ b) = ((tokenize b).map
      fun more => tokens ++ more.map (·.shift a.utf8ByteSize)).mapError
        (·.shift a.utf8ByteSize) := by
  have hsize := Text.byteLength_toList a
  unfold tokenize at h ⊢
  rw [← hsize] at hseam ⊢
  rw [String.toList_append, Lexer.tokensFrom_append h (by rwa [Nat.zero_add]),
    Lexer.tokensFrom_shift 0 (Text.byteLength a.toList)]
  cases Lexer.tokensFrom 0 b.toList <;> rfl

end Reckoner
