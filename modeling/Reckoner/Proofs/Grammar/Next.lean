/-
The next token. Every rule of the parser goes by the token in front of it,
and by the word of this token only: neither what is behind it matters nor
where it stands. So two lists of tokens look the same to a rule if their
next tokens have the same word.

What a rule sees tells it which token is there only if the token agrees
with itself. The parser looks at the kind of a token here and at its sign
there, and a token whose sign belongs to another kind is taken for a comma
although no derivation yields it. The same goes for what a rule refuses:
a token may look like no operator and still carry the sign of one.
-/
import Reckoner.Proofs.Grammar.Completeness
import Reckoner.Proofs.Lexing.Words

namespace Reckoner

/-- Does the token belong to this member of the set? -/
def Expected.admits (expected : Expected) (t : Token) : Bool :=
  match expected with
  | .kind k => t.kind == k
  | .symbol sign => t.carries sign

namespace Parser

variable {α β γ : Type}

-- ============================================================== readers

/-- What reads something from the front of tokens. -/
abbrev Reader (α : Type) := List Token → Except Stop (Reading α)

/-- The result of a reader that comes to an answer or meets an obstacle,
and leaves these tokens. -/
def leave (outcome : Except Obstacle α) (rest : List Token) : Except Stop (Reading α) :=
  match outcome with
  | .ok a => .ok (a, rest)
  | .error obstacle => .error ⟨obstacle, rest⟩

/-- Every result of a reader says its outcome and leaves some tokens. -/
theorem exists_leave (result : Except Stop (Reading α)) :
    ∃ outcome rest, result = leave outcome rest := by
  rcases result with ⟨obstacle, rest⟩ | ⟨a, rest⟩
  · exact ⟨.error obstacle, rest, rfl⟩
  · exact ⟨.ok a, rest, rfl⟩

/-- What a reader says and what it leaves are its result. -/
theorem leave_inj {outcome outcome' : Except Obstacle α} {rest rest' : List Token}
    (h : leave outcome rest = leave outcome' rest') : outcome = outcome' ∧ rest = rest' := by
  cases outcome <;> cases outcome' <;> cases h <;> exact ⟨rfl, rfl⟩

/-- Two steps succeed if the first one does, and the second one with what
it gave. -/
theorem bind_eq_ok {step : Except Stop α} {next : α → Except Stop β} {b : β}
    (h : (step >>= next) = .ok b) : ∃ a, step = .ok a ∧ next a = .ok b := by
  cases step with
  | error stop => cases h
  | ok a => exact ⟨a, rfl, h⟩

/-- Two steps stop where one of them does. -/
theorem bind_eq_error {step : Except Stop α} {next : α → Except Stop β} {stop : Stop}
    (h : (step >>= next) = .error stop) :
    step = .error stop ∨ ∃ a, step = .ok a ∧ next a = .error stop := by
  cases step with
  | error stop' =>
    cases h
    exact .inl rfl
  | ok a => exact .inr ⟨a, rfl, h⟩

/-- A reader behind a sign that has to come next, and a refusal without
it. -/
theorem expect_bind (sign : Char) (run : List Token → Except Stop β) (tokens : List Token) :
    (expect sign tokens >>= run) = if nextIs sign tokens = true then run tokens.tail
      else unexpected [.symbol sign] tokens := by
  unfold expect
  split <;> rfl

-- ==================================================== looking by the word

/-- Do the tokens differ in their places only? -/
def SameWords (ts ts' : List Token) : Prop := ts.map Token.word = ts'.map Token.word

/-- Have the next tokens the same word, or are there none? -/
def SameNext (ts ts' : List Token) : Prop := ts.head?.map Token.word = ts'.head?.map Token.word

/-- Tokens with the same words have the same words further on. -/
theorem SameWords.drop {ts ts' : List Token} (h : SameWords ts ts') (k : Nat) :
    SameWords (ts.drop k) (ts'.drop k) := by
  unfold SameWords at h ⊢
  rw [List.map_drop, List.map_drop, h]

theorem SameWords.sameNext {ts ts' : List Token} (h : SameWords ts ts') : SameNext ts ts' := by
  unfold SameNext
  rw [← List.head?_map, ← List.head?_map, h]

/-- What is in front of the same next token has the same next token. -/
theorem SameNext.append {front front' rest rest' : List Token} (h : SameWords front front')
    (hrest : SameNext rest rest') : SameNext (front ++ rest) (front' ++ rest') := by
  have hfront := h.sameNext
  unfold SameNext at hfront hrest ⊢
  rw [List.head?_append, List.head?_append, Option.map_or, Option.map_or, hfront, hrest]

/-- What depends on the word of the next token only. -/
def Glance (look : List Token → γ) : Prop :=
  ∀ {ts ts' : List Token}, SameNext ts ts' → look ts = look ts'

/-- The word of the next token is all there is to see. -/
theorem glance_word : Glance fun ts => ts.head?.map Token.word := id

/-- Whether a sign is next is read off the next token. -/
theorem glance_nextIs (sign : Char) : Glance (nextIs sign) := by
  have hword (ts : List Token) :
      nextIs sign ts = (ts.head?.map Token.word).any (·.2 == .symbol sign) := by
    cases ts <;> rfl
  intro ts ts' h
  rw [hword, hword, h]

theorem glance_any (signs : List Char) : Glance fun ts => signs.any (nextIs · ts) := by
  intro ts ts' h
  have hsigns (c : Char) : nextIs c ts = nextIs c ts' := glance_nextIs c h
  simp only [hsigns]

/-- Whether an expression can begin is read off the next token. -/
theorem glance_startsExpression : Glance startsExpression := by
  have hword (ts : List Token) :
      startsExpression ts = (ts.head?.map Token.word).any fun word =>
        word.1 == .number || word.1 == .string || word.1 == .identifier ||
          word.2 == .symbol '(' := by
    cases ts <;> rfl
  intro ts ts' h
  rw [hword, hword, h]

/-- The operator that is next is read off the next token. -/
theorem glance_nextOperator? : Glance nextOperator? := by
  have hword (ts : List Token) : nextOperator? ts = (ts.head?.map Token.word).bind fun word =>
      Token.operator? ⟨word.1, word.2, default⟩ := by
    cases ts <;> rfl
  intro ts ts' h
  rw [hword, hword, h]

-- ================================================ tokens that agree, by sign

/-- Every kind of token carries what that kind carries. -/
def Agreeing (tokens : List Token) : Prop := ∀ t ∈ tokens, t.agrees = true

variable {tokens front rest : List Token} {c : Char}

/-- The last of some agreeing tokens agree. -/
theorem Agreeing.right (h : Agreeing (front ++ rest)) : Agreeing rest :=
  fun t ht => h t (List.mem_append_right _ ht)

/-- The kind of a token that agrees with itself is that of its sign. -/
theorem agrees_sign {t : Token} (h : t.agrees = true) (hc : t.payload = .symbol c) :
    TokenKind.ofSymbol? c = some t.kind := by
  obtain ⟨kind, payload, span⟩ := t
  subst hc
  cases kind <;> simpa [Token.agrees] using h

/-- Where tokens agree with themselves and a sign is next, its token is the
one made for it. -/
theorem nextIs_sound {kind : TokenKind} (h : Agreeing tokens) (hnext : nextIs c tokens = true)
    (hkind : TokenKind.ofSymbol? c = some kind) :
    ∃ place, tokens = ⟨kind, .symbol c, place⟩ :: tokens.tail := by
  cases tokens with
  | nil => cases hnext
  | cons t rest =>
    have hc : t.payload = .symbol c := by simpa [nextIs, Token.carries] using hnext
    have hsame := agrees_sign (h t (List.mem_cons_self ..)) hc
    rw [hkind, Option.some.injEq] at hsame
    obtain ⟨k, payload, place⟩ := t
    subst hsame hc
    exact ⟨place, rfl⟩

/-- Where an operator is next, its token is the one made for it, whatever
else agrees. -/
theorem nextOperator?_sound {op : Operator} (h : nextOperator? tokens = some op) :
    ∃ place, tokens = ⟨.operator, .symbol op.symbol, place⟩ :: tokens.tail := by
  cases tokens with
  | nil => cases h
  | cons t rest =>
    obtain ⟨kind, payload, place⟩ := t
    simp only [nextOperator?, List.head?_cons, Option.bind_some, Token.operator?] at h
    split at h
    · rw [Operator.ofSymbol?_eq_some_iff] at h
      subst h
      exact ⟨place, rfl⟩
    · cases h

/-- The four tokens that an expression can begin with. -/
theorem starts_sound {t : Token} {others : List Token} (hagree : t.agrees = true)
    (h : startsExpression (t :: others) = true) :
    (∃ x, t.kind = .number ∧ t.payload = .number x) ∨
    (∃ s, t.kind = .string ∧ t.payload = .text s) ∨
    (∃ name, t.kind = .identifier ∧ t.payload = .text name) ∨
    (t.kind = .parenthesis ∧ t.payload = .symbol '(') := by
  obtain ⟨kind, payload, place⟩ := t
  simp only [startsExpression, Bool.or_eq_true, beq_iff_eq] at h
  cases payload with
  | number x => cases kind <;> simp_all [Token.agrees, Token.carries]
  | text s => cases kind <;> simp_all [Token.agrees, Token.carries]
  | symbol sign =>
    have hkind := agrees_sign hagree rfl
    obtain ⟨hnumber, hstring, hidentifier⟩ := Lexer.ofSymbol?_ne hkind
    obtain rfl : sign = '(' := by simpa [hnumber, hstring, hidentifier, Token.carries] using h
    cases hkind
    exact .inr (.inr (.inr ⟨rfl, rfl⟩))

-- ======================================================= what is not next

/-- None of these is next. -/
def Missing (expected : List Expected) (tokens : List Token) : Prop :=
  ∀ t ∈ tokens.head?, ∀ x ∈ expected, x.admits t = false

/-- Signs that are not next are missing. -/
theorem missing_symbols {signs : List Char} (h : ∀ c ∈ signs, nextIs c tokens = false) :
    Missing (signs.map .symbol) tokens := by
  intro t ht x hx
  obtain ⟨c, hc, rfl⟩ := List.mem_map.1 hx
  obtain ⟨others, rfl⟩ := List.head?_eq_some_iff.1 ht
  exact h c hc

theorem missing_symbol (h : nextIs c tokens = false) : Missing [.symbol c] tokens := by
  have hsigns : ∀ c' ∈ [c], nextIs c' tokens = false := by simpa using h
  exact missing_symbols hsigns

/-- Where no expression can begin, all that begins one is missing. -/
theorem missing_expressionStarts (h : startsExpression tokens = false) :
    Missing expressionStarts tokens := by
  intro t ht x hx
  obtain ⟨others, rfl⟩ := List.head?_eq_some_iff.1 ht
  simp only [startsExpression, Bool.or_eq_false_iff] at h
  obtain ⟨⟨⟨hnumber, hstring⟩, hidentifier⟩, hopen⟩ := h
  simp only [expressionStarts, List.mem_cons, List.not_mem_nil, or_false] at hx
  rcases hx with rfl | rfl | rfl | rfl
  · exact hnumber
  · exact hstring
  · exact hidentifier
  · exact hopen

theorem missing_append {expected others : List Expected} (h : Missing expected tokens)
    (hothers : Missing others tokens) : Missing (expected ++ others) tokens := by
  intro t ht x hx
  rcases List.mem_append.1 hx with hx | hx
  · exact h t ht x hx
  · exact hothers t ht x hx

/-- Where tokens agree with themselves, the sign of an operator is not
next unless the operator is. -/
theorem nextIs_operator (hagree : Agreeing tokens) {op : Operator}
    (h : nextOperator? tokens ≠ some op) : nextIs op.symbol tokens = false := by
  rw [Bool.eq_false_iff]
  intro hnext
  obtain ⟨place, htokens⟩ := nextIs_sound hagree hnext (TokenKind.ofSymbol?_symbol op)
  rw [htokens, nextOperator?_sign] at h
  exact h rfl

/-- Where no operator is next, none of the signs is that can follow an
operand, unless one of those that end it is. -/
theorem missing_afterFactor (hagree : Agreeing tokens) (hnone : nextOperator? tokens = none)
    (hends : operandEnds.any (nextIs · tokens) = false) : Missing afterFactor tokens := by
  have hops : ∀ c ∈ [Operator.mul, .div, .add, .sub].map Operator.symbol,
      nextIs c tokens = false := by
    intro c hc
    obtain ⟨op, -, rfl⟩ := List.mem_map.1 hc
    exact nextIs_operator hagree (by rw [hnone]; exact nofun)
  refine missing_symbols fun c hc => ?_
  rcases List.mem_append.1 (show c ∈ ['*', '/', '+', '-'] ++ operandEnds from hc) with hc | hc
  · exact hops c hc
  · exact Bool.eq_false_iff.2 (List.any_eq_false.1 hends c hc)

end Parser

end Reckoner
