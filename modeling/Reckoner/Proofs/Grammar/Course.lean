/-
What the rules of the grammar keep. The rules are put together in a few
ways: a reader answers or refuses without taking anything, it is chosen by
what is next, it goes on behind the next token or behind another reader. A
course is a statement about two readers in front of tokens that is kept by
all of these, and then it holds of every rule, and of the program. The two
readers are those of one rule, the second with more levels to go and with
other answers in the arms that are left open.

What the rules know while they read is worked out here, on the way: which
phrase is awaited, what was taken, what is next behind it, and how many
levels are left. A course can use it where a rule answers or refuses. Three
levels are enough for each token: an expression hands down what it has to a
sum, the sum to a product and the product to a primary, which takes a token
before the next expression is read.
-/
import Reckoner.Proofs.Grammar.Arms
import Reckoner.Proofs.Grammar.Phrases

namespace Reckoner

open Reckoner.Derivation

namespace Parser

variable {α β γ : Type}

-- ================================================= what is next behind them

/-- The next token is an operator of a sum, or a sign that can stand
behind an operand. -/
def BehindProduct (tokens : List Token) : Prop :=
  ∃ t ∈ tokens.head?, (∃ op, t.operator? = some op ∧ op.isAdditive = true) ∨
    ∃ sign ∈ operandEnds, t.carries sign = true

/-- An operator of a sum can follow a product. -/
theorem behindProduct_of_operator {tokens : List Token} {op : Operator}
    (h : nextOperator? tokens = some op) (hadditive : op.isAdditive = true) :
    BehindProduct tokens := by
  obtain ⟨t, ht, hop⟩ := Option.bind_eq_some_iff.1 h
  exact ⟨t, ht, .inl ⟨op, hop, hadditive⟩⟩

/-- What can follow a sum can follow a product. -/
theorem AfterSum.behindProduct {tokens : List Token} (h : AfterSum tokens) :
    BehindProduct tokens := by
  obtain ⟨sign, hmem, hnext⟩ := h
  cases tokens with
  | nil => cases hnext
  | cons t rest => exact ⟨t, rfl, .inr ⟨sign, hmem, hnext⟩⟩

/-- Behind a product that no operator of a sum follows is one of the
signs. -/
theorem BehindProduct.afterSum {tokens : List Token} (h : BehindProduct tokens)
    (hnone : (nextOperator? tokens).filter Operator.isAdditive = none) : AfterSum tokens := by
  obtain ⟨t, ht, ⟨op, hop, hadditive⟩ | ⟨sign, hmem, hcarries⟩⟩ := h
  · have hnext : nextOperator? tokens = some op := Option.bind_eq_some_iff.2 ⟨t, ht, hop⟩
    rw [hnext, Option.filter_some_pos hadditive] at hnone
    cases hnone
  · obtain ⟨rest, rfl⟩ := List.head?_eq_some_iff.1 ht
    exact ⟨sign, hmem, hcarries⟩

-- ========================================================== what is refused

/-- What a rule says when it refuses, and what it has in front of it
then. -/
inductive RefusedAt : Obstacle → List Token → Prop where
  | start {tokens : List Token} (hstarts : startsExpression tokens = false) :
      RefusedAt (.unexpected expressionStarts) tokens
  /-- The next token only looks as if an expression could begin with it. -/
  | mismatched {tokens : List Token} {t : Token} (hnext : t ∈ tokens.head?)
      (hmismatch : t.agrees = false) : RefusedAt (.unexpected expressionStarts) tokens
  | arguments {tokens : List Token} (hstarts : startsExpression tokens = false)
      (hopen : nextIs ')' tokens = false) : RefusedAt (.unexpected argumentStarts) tokens
  | factor {tokens : List Token} (hnone : nextOperator? tokens = none)
      (hends : operandEnds.any (nextIs · tokens) = false) :
      RefusedAt (.unexpected afterFactor) tokens
  /-- Behind an expression in a row is what can follow an operand, but no
  comma and no sign that closes the row. -/
  | item {tokens : List Token} (closers : List Char) (hends : AfterSum tokens)
      (hnone : ∀ c ∈ ',' :: closers, nextIs c tokens = false) :
      RefusedAt (.unexpected ((',' :: closers).map .symbol)) tokens
  | sign {tokens : List Token} (sign : Char) (hnone : nextIs sign tokens = false) :
      RefusedAt (.unexpected [.symbol sign]) tokens
  | tooDeep {tokens : List Token} : RefusedAt .tooDeep tokens

/-- A refusal in front of `ts`, of the rules with `limit` levels. It is for
want of levels only if the limit is no three levels for each token. -/
structure Refused (limit : Nat) (tokens : List Token) (obstacle : Obstacle) (ts : List Token) :
    Prop where
  refused : RefusedAt obstacle ts
  reached : Reached tokens ts
  deep : obstacle = .tooDeep → limit < 3 * tokens.length + 3

/-- The tokens are used up at a place where a semicolon could stand. -/
def RunsOut (result : Except Stop α) : Prop :=
  ∃ expected, result = .error ⟨.unexpected expected, []⟩ ∧ .symbol ';' ∈ expected

/-- A choice by what is next is the same at the end of the tokens and in
front of a semicolon, unless the tokens run out at the end or the second
reader refuses what is made of the semicolon. -/
def EndsAlike (look : List Token → γ) (next next' : γ → Reader α) : Prop :=
  ∀ t : Token, t.carries ';' = true → look [t] = look [] ∨ RunsOut (next (look []) []) ∨
    ∃ stop, next' (look [t]) [t] = .error stop

-- =============================================================== courses

/-- A statement about two readers in front of some last part of the tokens,
and about what the first one leaves when it answers, that is kept by the
ways in which rules are put together. -/
structure Course (limit : Nat) (tokens : List Token) (arms : Arms) (gap : Nat) where
  Holds : {α : Type} → Reader α → Reader α → List Token → (α → List Token → Prop) → Prop
  /-- Both answer and take nothing. -/
  ok : ∀ {α : Type} {a : α} {ts : List Token} {post : α → List Token → Prop}, post a ts →
    Holds (fun ts => .ok (a, ts)) (fun ts => .ok (a, ts)) ts post
  /-- Both refuse what is next. -/
  refuse : ∀ {α : Type} {expected : List Expected} {ts : List Token}
    {post : α → List Token → Prop}, Refused limit tokens (.unexpected expected) ts →
    Holds (unexpected expected) (unexpected expected) ts post
  /-- A token that only looks like the beginning of a primary is refused by
  each in its own words. -/
  mismatch : ∀ {ts : List Token} {post : Expr → List Token → Prop} {t : Token},
    t ∈ ts.head? → t.agrees = false → Reached tokens ts →
    Holds (fun ts => .error (Arms.own.mismatched ts)) (fun ts => .error (arms.mismatched ts)) ts
      post
  /-- The first is out of levels, and so is the second unless it has
  more. -/
  deep : ∀ {ts : List Token} {post : Expr → List Token → Prop} {run' : Reader Expr},
    Refused limit tokens .tooDeep ts → (gap = 0 → run' = tooDeep.run) →
    Holds tooDeep.run run' ts post
  /-- One reader after another. -/
  bind : ∀ {α β : Type} {run run' : Reader α} {next next' : Reading α → Except Stop (Reading β)}
    {ts : List Token} {mid : α → List Token → Prop} {post : β → List Token → Prop},
    Holds run run' ts mid →
    (∀ a rest, run ts = .ok (a, rest) → mid a rest →
      Holds (fun ts => next (a, ts)) (fun ts => next' (a, ts)) rest post) →
    Holds (fun ts => run ts >>= next) (fun ts => run' ts >>= next') ts post
  /-- A reader that is chosen by what is next. -/
  look : ∀ {α γ : Type} {look : List Token → γ} {next next' : γ → Reader α} {ts : List Token}
    {post : α → List Token → Prop}, Glance look → EndsAlike look next next' →
    Holds (next (look ts)) (next' (look ts)) ts post →
    Holds (fun ts => next (look ts) ts) (fun ts => next' (look ts) ts) ts post
  /-- A reader of what is behind the next token. -/
  take : ∀ {α : Type} {run run' : Reader α} {t : Token} {ts : List Token}
    {post : α → List Token → Prop}, Holds run run' ts post →
    Holds (fun ts => run ts.tail) (fun ts => run' ts.tail) (t :: ts) post

namespace Course

variable {limit : Nat} {tokens : List Token} {arms : Arms} {gap : Nat}
  (C : Course limit tokens arms gap) {ts : List Token}

section Ways

variable {run run' other other' : Reader α} {post post' : α → List Token → Prop}

/-- What is known of the answer can be said in other words. -/
theorem weaken (h : C.Holds run run' ts post) (himp : ∀ a rest, post a rest → post' a rest) :
    C.Holds run run' ts post' := by
  have hboth := C.bind h fun a rest _ hpost => C.ok (himp a rest hpost)
  have hpure (run : Reader α) : (fun ts => run ts >>= fun (a, ts) => .ok (a, ts)) = run :=
    funext fun ts => bind_pure (run ts)
  rwa [hpure, hpure] at hboth

/-- One of two readers, by a test of what is next. -/
theorem ite {test : List Token → Bool} (htest : Glance test)
    (hend : EndsAlike test (fun b ts => if b = true then run ts else other ts)
      fun b ts => if b = true then run' ts else other' ts)
    (hyes : test ts = true → C.Holds run run' ts post)
    (hno : test ts = false → C.Holds other other' ts post) :
    C.Holds (fun ts => if test ts = true then run ts else other ts)
      (fun ts => if test ts = true then run' ts else other' ts) ts post := by
  refine C.look htest hend ?_
  cases hlooked : test ts with
  | true => exact hyes hlooked
  | false => exact hno hlooked

/-- One of two readers, by what is known already. -/
theorem decided (b : Bool) (hyes : b = true → C.Holds run run' ts post)
    (hno : b = false → C.Holds other other' ts post) :
    C.Holds (fun ts => if b = true then run ts else other ts)
      (fun ts => if b = true then run' ts else other' ts) ts post :=
  C.ite (fun _ => rfl) (fun _ _ => .inl rfl) hyes hno

/-- A test for one of some signs. Where the semicolon is one of them,
tokens that end run out. -/
theorem signs (signs : List Char) (hout : ';' ∈ signs → RunsOut (other []))
    (hyes : signs.any (nextIs · ts) = true → C.Holds run run' ts post)
    (hno : signs.any (nextIs · ts) = false → C.Holds other other' ts post) :
    C.Holds (fun ts => if signs.any (nextIs · ts) = true then run ts else other ts)
      (fun ts => if signs.any (nextIs · ts) = true then run' ts else other' ts) ts post := by
  refine C.ite (glance_any signs) (fun t ht => ?_) hyes hno
  have hnil : signs.any (nextIs · []) = false := List.any_eq_false.2 fun _ _ => by simp [nextIs]
  by_cases hmem : ';' ∈ signs
  · refine .inr (.inl ?_)
    rw [hnil]
    exact hout hmem
  · refine .inl (Eq.trans (List.any_eq_false.2 fun c hc => ?_) hnil.symm)
    have hne : ';' ≠ c := fun h => hmem (h ▸ hc)
    simp [nextIs_ne (show nextIs ';' [t] = true from ht) hne]

/-- A test for one sign, which is no semicolon. -/
theorem sign {c : Char} (hne : ';' ≠ c) (hyes : nextIs c ts = true → C.Holds run run' ts post)
    (hno : nextIs c ts = false → C.Holds other other' ts post) :
    C.Holds (fun ts => if nextIs c ts = true then run ts else other ts)
      (fun ts => if nextIs c ts = true then run' ts else other' ts) ts post := by
  refine C.ite (glance_nextIs c) (fun t ht => .inl ?_) hyes hno
  exact nextIs_ne (show nextIs ';' [t] = true from ht) hne

/-- A test for the beginning of an expression. The second reader refuses
every single token, also one that begins an expression and carries a
semicolon. -/
theorem starts (hrefuses : ∀ t, ∃ stop, run' [t] = .error stop)
    (hyes : startsExpression ts = true → C.Holds run run' ts post)
    (hno : startsExpression ts = false → C.Holds other other' ts post) :
    C.Holds (fun ts => if startsExpression ts = true then run ts else other ts)
      (fun ts => if startsExpression ts = true then run' ts else other' ts) ts post := by
  refine C.ite glance_startsExpression (fun t _ => ?_) hyes hno
  cases hstarts : startsExpression [t] with
  | false => exact .inl rfl
  | true => exact .inr (.inr (hrefuses t))

/-- A choice by the operator that is next. -/
theorem operator (next next' : Option Operator → Reader α)
    (h : C.Holds (next (nextOperator? ts)) (next' (nextOperator? ts)) ts post) :
    C.Holds (fun ts => next (nextOperator? ts) ts) (fun ts => next' (nextOperator? ts) ts) ts
      post := by
  refine C.look glance_nextOperator? (fun t ht => .inl ?_) h
  refine nextOperator?_eq_none (show nextIs ';' [t] = true from ht) fun op => ?_
  cases op <;> decide

/-- A reader of what is behind the next token, if there is one. -/
theorem behind (hne : ts ≠ []) (h : C.Holds run run' ts.tail post) :
    C.Holds (fun ts => run ts.tail) (fun ts => run' ts.tail) ts post := by
  obtain ⟨t, others, rfl⟩ := List.exists_cons_of_ne_nil hne
  exact C.take h

theorem length_tail_lt (hne : ts ≠ []) : ts.tail.length < ts.length := by
  have hpos := List.length_pos_iff.2 hne
  rw [List.length_tail]
  omega

theorem ne_nil_of_nextIs {c : Char} (h : nextIs c ts = true) : ts ≠ [] := by
  rintro rfl
  cases h

theorem ne_nil_of_operator {op : Operator} (h : nextOperator? ts = some op) : ts ≠ [] := by
  rintro rfl
  cases h

/-- A reader behind a sign that has to come next. -/
theorem expect (c : Char) (hreached : Reached tokens ts)
    (h : nextIs c ts = true → C.Holds run run' ts.tail post) :
    C.Holds (fun ts => Parser.expect c ts >>= run) (fun ts => Parser.expect c ts >>= run') ts
      post := by
  simp only [expect_bind]
  refine C.ite (glance_nextIs c) (fun t ht => ?_)
    (fun hnext => C.behind (ne_nil_of_nextIs hnext) (h hnext))
    fun hnext => C.refuse ⟨.sign c hnext, hreached, nofun⟩
  by_cases hc : ';' = c
  · subst hc
    exact .inr (.inl ⟨_, rfl, List.mem_singleton_self _⟩)
  · exact .inl (nextIs_ne (show nextIs ';' [t] = true from ht) hc)

end Ways

-- ============================================================ the rules

/-- The rule reads the phrase in no more than `n` levels wherever it is
awaited and enough levels have been left for the tokens, and what is next
then is known. -/
def Reads {δ α : Type} (rule rule' : Rule α) (phrase : Phrase δ α) (n slack : Nat)
    (next : List Token → Prop) : Prop :=
  ∀ ts, Awaits tokens phrase ts → limit + 3 * ts.length ≤ n + slack + 3 * tokens.length →
    C.Holds rule.run rule'.run ts fun a rest => next rest ∧ Takes tokens phrase n ts a rest

/-- No single token is read by the rule, since something is next behind
what it reads. -/
def Refuses (rule : Rule α) : Prop := ∀ t, ∃ stop, rule.run [t] = .error stop

/-- A rule that goes on behind one that refuses refuses too. -/
theorem Refuses.bind {rule : Rule α} (h : Refuses rule) (next : Reading α → Except Stop (Reading β))
    (t : Token) : ∃ stop, (rule.run [t] >>= next) = .error stop := by
  obtain ⟨stop, hstop⟩ := h t
  exact ⟨stop, by rw [hstop]; rfl⟩

/-- A rule for operands takes a single token whole, and with nothing behind
it the rule around it refuses. -/
theorem refuses_end (operand : Rule α) {next : Reading α → Except Stop (Reading β)}
    (hnext : ∀ a, ∃ stop, next (a, []) = .error stop) (t : Token) :
    ∃ stop, (operand.run [t] >>= next) = .error stop := by
  cases hrun : operand.run [t] with
  | error stop => exact ⟨stop, rfl⟩
  | ok reading =>
    obtain ⟨a, rest⟩ := reading
    have hshorter := operand.consumes hrun
    obtain rfl : rest = [] := List.eq_nil_of_length_eq_zero (Nat.lt_one_iff.1 hshorter)
    exact hnext a

section Rules

variable {n : Nat} {item item' self self' : Rule Expr}

/-- Behind each expression of a row is a comma, or a sign that closes the
row and stays. -/
theorem row (hitem : C.Reads item item' .expression n 0 AfterSum) (closers : List Char)
    {ts : List Token} (hawaits : Awaits tokens .statement ts)
    (hroom : limit + 3 * ts.length ≤ n + 3 * tokens.length) :
    C.Holds (row item closers) (row item' closers) ts (Takes tokens .statement n ts) := by
  refine C.bind (hitem ts (hawaits.via .item) hroom) fun e mid hfirst ⟨hends, he⟩ => ?_
  have hfewer := item.consumes hfirst
  have hbehind := (hawaits.via .items).next he
  have htail : C.Holds (rowTail item closers) (rowTail item' closers) mid
      fun es rest => Takes tokens .statement n ts (e :: es) rest := by
    rw [funext (rowTail_eq item closers), funext (rowTail_eq item' closers)]
    refine C.sign (by decide) (fun hcomma => ?_) fun hnone => C.signs closers (fun hmem => ?_)
      (fun _ => ?_) fun hclosers => ?_
    · have hsign := Takes.sign (n := n) hbehind.reached hcomma rfl
      have hlength : mid.tail.length ≤ mid.length := hsign.length_le
      refine C.behind (ne_nil_of_nextIs hcomma) (C.weaken
        (row hitem closers (hbehind.next hsign) (by omega)) fun es rest hes => ?_)
      exact (he.seq (hsign.seq hes)).via .items
    · exact ⟨_, rfl, List.mem_map_of_mem (List.mem_cons_of_mem _ hmem)⟩
    · exact C.ok (he.via .item)
    · refine C.refuse ⟨.item closers hends fun c hc => ?_, hbehind.reached, nofun⟩
      rcases List.mem_cons.1 hc with rfl | hc
      · exact hnone
      · exact Bool.eq_false_iff.2 (List.any_eq_false.1 hclosers c hc)
  exact C.bind htail fun es rest _ hes => C.ok hes
termination_by ts.length

variable (hitem : C.Reads item item' .expression n 0 AfterSum) (hrefuses : Refuses item')

include hitem hrefuses

/-- The arguments of a call are a row, or nothing in front of the sign that
closes it. -/
theorem arguments (hawaits : Awaits tokens .arguments ts)
    (hroom : limit + 3 * ts.length ≤ n + 3 * tokens.length) :
    C.Holds (arguments item) (arguments item') ts (Takes tokens .arguments n ts) := by
  refine C.sign (by decide) (fun _ => C.ok .noArguments) fun hclosed =>
    C.starts (hrefuses.bind _) (fun _ => ?_) fun hstarts =>
      C.refuse ⟨.arguments hstarts hclosed, hawaits.reached, nofun⟩
  exact C.weaken (C.row hitem _ (hawaits.via .given) hroom) fun _ _ hrow => hrow.via .given

/-- Behind a name in front of a parenthesis are its arguments and the other
parenthesis. -/
theorem named {name : String} {first : List Token} (hawaits : Awaits tokens .primary first)
    (hname : Takes tokens (.token .identifier (.text name)) n first () ts)
    (hroom : limit + 3 * ts.length ≤ n + 3 * tokens.length) :
    C.Holds (named item name) (named item' name) ts (Takes tokens .primary n first) := by
  have hbehind := (hawaits.via (.call name)).next hname
  refine C.sign (by decide) (fun hopen => ?_) fun _ => C.ok (hname.via (.identifier name))
  have hopened := Takes.sign (n := n) hbehind.reached hopen rfl
  have hwithin := hbehind.next hopened
  have hlength := hopened.length_le
  refine C.behind (ne_nil_of_nextIs hopen) (C.bind
    (C.arguments hitem hrefuses hwithin.first (by omega)) fun es mid _ hes => ?_)
  refine C.expect ')' (hwithin.next hes).reached fun hclose => C.ok ?_
  have hclosed := Takes.sign (n := n) (hwithin.next hes).reached hclose rfl
  exact (hname.seq (hopened.seq (hes.seq hclosed))).via (.call name)

omit hrefuses in
/-- Behind a parenthesis is a row and the other parenthesis. -/
theorem grouped {first : List Token} (hawaits : Awaits tokens .primary first)
    (hopened : Takes tokens (.sign .parenthesis '(') n first () ts)
    (hroom : limit + 3 * ts.length ≤ n + 3 * tokens.length) :
    C.Holds (grouped item) (grouped item') ts (Takes tokens .primary n first) := by
  have hwithin := (hawaits.via .group).next hopened
  refine C.bind (C.row hitem _ hwithin.first hroom) fun es mid _ hes => ?_
  refine C.expect ')' (hwithin.next hes).reached fun hclose => C.ok ?_
  have hclosed := Takes.sign (n := n) (hwithin.next hes).reached hclose rfl
  exact (hopened.seq (hes.seq hclosed)).via .group

/-- A primary is asked for only where a token can begin it. -/
theorem primary (hstarts : startsExpression ts = true) (hawaits : Awaits tokens .primary ts)
    (hroom : limit + 3 * ts.length ≤ n + 1 + 2 + 3 * tokens.length) :
    C.Holds (Parser.primary item).run (arms.primary item').run ts
      (Takes tokens .primary n ts) := by
  show C.Holds (primaryRun item) (arms.primaryRun item') ts _
  rw [← Arms.own_primaryRun, funext (Arms.own.primaryRun_eq item),
    funext (arms.primaryRun_eq item')]
  refine C.look glance_word (fun t ht => .inr (.inr ?_)) ?_
  · -- a semicolon is no primary
    obtain ⟨kind, payload, place⟩ := t
    obtain rfl : payload = .symbol ';' := by simpa [Token.carries] using ht
    cases kind <;> exact ⟨_, rfl⟩
  cases ts with
  | nil => cases hstarts
  | cons t others =>
    simp only [List.length_cons] at hroom
    show C.Holds (Arms.own.primaryBy item (some t.word)) (arms.primaryBy item' (some t.word)) _ _
    cases hagree : t.agrees with
    | false =>
      rw [funext (Arms.own.primaryBy_disagreeing hagree item),
        funext (arms.primaryBy_disagreeing hagree item')]
      exact C.mismatch rfl hagree hawaits.reached
    | true =>
      have hfirst : Takes tokens _ n (t :: others) () others := .token t
      obtain ⟨kind, payload, place⟩ := t
      rcases starts_sound hagree hstarts with
        ⟨x, rfl, rfl⟩ | ⟨s, rfl, rfl⟩ | ⟨name, rfl, rfl⟩ | ⟨rfl, rfl⟩
      · exact C.take (C.ok (hfirst.via (.number x)))
      · exact C.take (C.ok (hfirst.via (.text s)))
      · exact C.take (C.named hitem hrefuses hawaits hfirst (by omega))
      · exact C.take (C.grouped hitem hawaits hfirst (by omega))

end Rules

section Operators

variable {n : Nat} {operand operand' self self' : Rule Expr}

/-- What the rule for products does behind an operand. -/
def productRest (self : Rule Expr) (left : Expr) (next : Option Operator) (rest : List Token) :
    Except Stop (Reading Expr) :=
  match next with
  | some op =>
    if op.isAdditive then return (left, rest)
    else do
      let (right, rest) ← self.run rest.tail
      return (.binary op left right, rest)
  | none =>
    if operandEnds.any (nextIs · rest) then return (left, rest)
    else unexpected afterFactor rest

/-- The second operand of a product or a sum, behind the operator. -/
theorem joined {op : Operator} {left : Expr} {post post' : Expr → List Token → Prop}
    (hop : nextOperator? ts = some op) (h : C.Holds self.run self'.run ts.tail post)
    (hpost : ∀ right rest, post right rest → post' (.binary op left right) rest) :
    C.Holds
      (fun ts => self.run ts.tail >>= fun (right, rest) => pure (.binary op left right, rest))
      (fun ts => self'.run ts.tail >>= fun (right, rest) => pure (.binary op left right, rest)) ts
      post' := by
  let whole : Reading Expr → Except Stop (Reading Expr) :=
    fun (right, rest) => pure (.binary op left right, rest)
  have hboth : C.Holds (fun ts => self.run ts >>= whole) (fun ts => self'.run ts >>= whole)
      ts.tail post' :=
    C.bind h fun right rest _ hright => C.ok (hpost right rest hright)
  exact C.behind (ne_nil_of_operator hop) hboth

/-- Behind its operand a product has an operator, or something that can
follow a product. -/
theorem product
    (hoperand : ∀ ts, startsExpression ts = true → Awaits tokens .primary ts →
      limit + 3 * ts.length ≤ n + 1 + 2 + 3 * tokens.length →
      C.Holds operand.run operand'.run ts (Takes tokens .primary n ts))
    (hself : C.Reads self self' .product n 2 BehindProduct) :
    C.Reads (product operand self) (product operand' self') .product (n + 1) 2 BehindProduct := by
  intro ts hawaits hroom
  refine C.starts (refuses_end operand' fun _ => ⟨_, rfl⟩) (fun hstarts => ?_)
    fun hnone => C.refuse ⟨.start hnone, hawaits.reached, nofun⟩
  refine C.bind (hoperand ts hstarts (hawaits.via .factor) hroom) fun left mid _ hleft => ?_
  refine C.operator (productRest self left) (productRest self' left) ?_
  cases hop : nextOperator? mid with
  | none =>
    refine C.signs operandEnds (fun _ => ⟨_, rfl, by decide⟩)
      (fun hends => C.ok ⟨AfterSum.behindProduct (List.any_eq_true.1 hends), hleft.via .factor⟩)
      fun hends => ?_
    exact C.refuse ⟨.factor hop hends, (hawaits.via .factor).taken hleft, nofun⟩
  | some op =>
    refine C.decided op.isAdditive
      (fun hadditive => C.ok ⟨behindProduct_of_operator hop hadditive, hleft.via .factor⟩)
      fun hmultiplicative => ?_
    have hsign : Takes tokens _ n mid () mid.tail := .operator hop
    have hright := ((hawaits.via (.multiplicative op hmultiplicative)).next hleft).next hsign
    have hmid := hleft.length_le
    have hlater := length_tail_lt (ne_nil_of_operator hop)
    refine C.joined hop (hself _ hright (by omega)) fun right rest ⟨hnext, hright⟩ => ⟨hnext, ?_⟩
    exact (hleft.seq (hsign.seq hright)).via (.multiplicative op hmultiplicative)

/-- Behind its operand a sum has an answer of the rules, since the operand
is a product. -/
theorem sum (hoperand : C.Reads operand operand' .product n 2 BehindProduct)
    (hself : C.Reads self self' .sum n 1 AfterSum) :
    C.Reads (Parser.sum operand self) (arms.sum operand' self') .sum (n + 1) 1 AfterSum := by
  intro ts hawaits hroom
  refine C.starts (refuses_end operand' fun _ => ⟨_, rfl⟩) (fun _ => ?_)
    fun hnone => C.refuse ⟨.start hnone, hawaits.reached, nofun⟩
  refine C.bind (hoperand ts (hawaits.via .summand) (by omega))
    fun left mid _ ⟨hbehind, hleft⟩ => ?_
  refine C.operator (Arms.own.sumRest self left) (arms.sumRest self' left) ?_
  unfold Arms.sumRest
  cases hop : (nextOperator? mid).filter Operator.isAdditive with
  | none =>
    refine C.signs operandEnds (fun _ => ⟨_, rfl, by decide⟩)
      (fun hends => C.ok ⟨List.any_eq_true.1 hends, hleft.via .summand⟩) fun hends => ?_
    exact absurd (hbehind.afterSum hop).ends (by simp [hends])
  | some op =>
    obtain ⟨hop, hadditive⟩ := Option.filter_eq_some_iff.1 hop
    have hsign : Takes tokens _ n mid () mid.tail := .operator hop
    have hright := ((hawaits.via (.additive op hadditive)).next hleft).next hsign
    have hmid := hleft.length_le
    have hlater := length_tail_lt (ne_nil_of_operator hop)
    refine C.joined hop (hself _ hright (by omega)) fun right rest ⟨hends, hright⟩ => ⟨hends, ?_⟩
    exact (hleft.seq (hsign.seq hright)).via (.additive op hadditive)

/-- An expression is a sum, or a choice between two sums behind one. -/
theorem choice (hoperand : C.Reads operand operand' .sum n 1 AfterSum)
    (hrefuses : Refuses operand') :
    C.Reads (Parser.choice operand) (Parser.choice operand') .expression (n + 1) 0 AfterSum := by
  intro ts hawaits hroom
  refine C.starts (hrefuses.bind _) (fun _ => ?_)
    fun hnone => C.refuse ⟨.start hnone, hawaits.reached, nofun⟩
  refine C.bind (hoperand ts (hawaits.via .plain) (by omega))
    fun condition mid _ ⟨hends, hcondition⟩ => ?_
  have hbehind := (hawaits.via .choice).next hcondition
  have hmid := hcondition.length_le
  refine C.sign (by decide) (fun hquestion => ?_) fun _ => C.ok ⟨hends, hcondition.via .plain⟩
  have hsign := Takes.sign (n := n) hbehind.reached hquestion rfl
  have hmid' := hsign.length_le
  have harms := hbehind.next hsign
  refine C.behind (ne_nil_of_nextIs hquestion) (C.bind (hoperand _ harms.first (by omega))
    fun whenTrue after _ ⟨_, htrue⟩ => ?_)
  have hlater := harms.next htrue
  refine C.expect ':' hlater.reached fun hcolon => ?_
  have hsign' := Takes.sign (n := n) hlater.reached hcolon rfl
  have hafter := htrue.length_le
  have hafter' := hsign'.length_le
  refine C.bind (hoperand _ (hlater.next hsign') (by omega))
    fun whenFalse rest _ ⟨hends, hfalse⟩ => C.ok ⟨hends, ?_⟩
  exact (hcondition.seq (hsign.seq (htrue.seq (hsign'.seq hfalse)))).via .choice

end Operators

-- ============================================================ the levels

/-- The rules of a level. -/
structure Level (n : Nat) : Prop where
  expression : C.Reads (Grammar.ofDepth n).expression (arms.grammar (gap + n)).expression
    .expression n 0 AfterSum
  sum : C.Reads (Grammar.ofDepth n).sum (arms.grammar (gap + n)).sum .sum n 1 AfterSum
  product : C.Reads (Grammar.ofDepth n).product (arms.grammar (gap + n)).product .product n 2
    BehindProduct

/-- No rule for an expression or a sum takes the last token. -/
theorem refuses_grammar (arms : Arms) (n : Nat) :
    Refuses (arms.grammar n).expression ∧ Refuses (arms.grammar n).sum := by
  induction n with
  | zero => exact ⟨fun t => ⟨_, rfl⟩, fun t => ⟨_, rfl⟩⟩
  | succ n ih =>
    refine ⟨fun t => ?_, fun t => ?_⟩
    · show ∃ stop, choiceRun _ [t] = .error stop
      unfold choiceRun
      split
      · exact ih.2.bind _ t
      · exact ⟨_, rfl⟩
    · show ∃ stop, arms.sumRun _ _ [t] = .error stop
      unfold Arms.sumRun
      split
      · exact refuses_end _ (fun _ => ⟨_, rfl⟩) t
      · exact ⟨_, rfl⟩

/-- A course holds of the rules of every level. -/
theorem level (n : Nat) : C.Level n := by
  induction n with
  | zero =>
    have hdeep {ts : List Token} {post : Expr → List Token → Prop} {rule : Rule Expr}
        (hreached : Reached tokens ts) (hlimit : limit < 3 * tokens.length + 3)
        (hrule : gap = 0 → rule.run = tooDeep.run) : C.Holds tooDeep.run rule.run ts post :=
      C.deep ⟨.tooDeep, hreached, fun _ => hlimit⟩ hrule
    have hgrammar (hgap : gap = 0) : arms.grammar (gap + 0) = ⟨tooDeep, tooDeep, tooDeep⟩ := by
      rw [hgap]
      rfl
    exact {
      expression := fun ts hawaits hroom =>
        hdeep hawaits.reached (by omega) fun hgap => by rw [hgrammar hgap]
      sum := fun ts hawaits hroom =>
        hdeep hawaits.reached (by omega) fun hgap => by rw [hgrammar hgap]
      product := fun ts hawaits hroom =>
        hdeep hawaits.reached (by omega) fun hgap => by rw [hgrammar hgap] }
  | succ n below =>
    obtain ⟨hexpression, hsum⟩ := refuses_grammar arms (gap + n)
    exact ⟨C.choice below.sum hsum, C.sum below.product below.sum,
      C.product (fun ts hstarts hawaits hroom =>
        C.primary below.expression hexpression hstarts hawaits hroom) below.product⟩

/-- A row that begins with a single token is refused, and so are the
statements that it is one of. -/
theorem refuses_statements {item : Rule Expr} (h : Refuses item) (t : Token) :
    ∃ stop, statements (statement item) [t] = .error stop := by
  rw [statements_eq]
  have hrow : Refuses (statement item) := h.bind _
  exact hrow.bind _ t

/-- What holds of the rules holds of the statements of a program. -/
theorem statements {ts : List Token} (hawaits : Awaits tokens .program ts)
    (hlength : ts.length ≤ tokens.length) :
    C.Holds (statements (statement (Grammar.ofDepth limit).expression))
      (statements (statement (arms.grammar (gap + limit)).expression)) ts
      (Takes tokens .program limit ts) := by
  rw [funext (statements_eq (statement (Grammar.ofDepth limit).expression)),
    funext (statements_eq (statement (arms.grammar (gap + limit)).expression))]
  refine C.bind (C.row (C.level limit).expression _ (hawaits.via .ended).first (by omega))
    fun s mid hstatement hs => ?_
  have hfewer := (statement (Grammar.ofDepth limit).expression).consumes hstatement
  have hbehind := (hawaits.via .more).next hs
  refine C.expect ';' hbehind.reached fun hsemicolon => ?_
  have hsign := Takes.sign (n := limit) hbehind.reached hsemicolon rfl
  have hlater := hsign.length_le
  refine C.starts (fun t => ?_) (fun _ => ?_) fun _ => C.ok ((hs.seq hsign).via .ended)
  · obtain ⟨stop, hstop⟩ := refuses_statements (refuses_grammar arms (gap + limit)).1 t
    exact ⟨stop, by rw [hstop]; rfl⟩
  · exact C.bind (statements (hbehind.next hsign) (by omega)) fun ss rest _ hss =>
      C.ok ((hs.seq (hsign.seq hss)).via .more)
termination_by ts.length

end Course

end Parser

end Reckoner
