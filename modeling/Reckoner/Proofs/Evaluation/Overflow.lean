/-
Programs that were read do not overflow the evaluator. The parser counts
levels and the evaluator counts nodes, and what was read has four nodes
for three levels at most. So a limit for nodes that is four thirds of the
one for levels, less one, is never reached.

That is no more than what is needed. A group in a product in a sum in a
condition takes three levels and has four nodes, all of them on the way
to its first operand, and so towers of these reach the bound. The way to
the first operand is the first one that evaluation goes, whatever the
values are, so its length alone decides about such a program.
-/
import Reckoner.Proofs.Printing.Reparse

namespace Reckoner

open Reckoner.Derivation Evaluator Lexer

-- ============================================== meaning has no overflow

section Meaning

variable {φ σ : Type} {α β : Type}

/-- An action that never fails for want of levels, from any state. -/
def Unbounded (act : Action σ α) : Prop :=
  ∀ state depth limit, (act state).1 ≠ .error (.stackOverflow depth limit)

namespace Unbounded

theorem pure (a : α) : Unbounded (Pure.pure a : Action σ α) := nofun

/-- One action after another. -/
theorem bind {act : Action σ α} {next : α → Action σ β} (h : Unbounded act)
    (hnext : ∀ a, Unbounded (next a)) : Unbounded (act >>= next) := by
  intro state depth limit
  rw [step_bind]
  have hact := h state depth limit
  generalize act state = result at hact ⊢
  rcases result with ⟨e | a, state'⟩
  · exact fun herror => hact (congrArg Except.error (Except.error.inj herror))
  · exact hnext a state' depth limit

variable [HostFunction φ] (host : Host φ σ) (env : Environment φ)

/-- A call fails for its name, its arguments or the function, and not for
levels. -/
theorem calling (name : String) (arguments : List (Value φ)) :
    Unbounded (env.calling host name arguments) := by
  intro state depth limit
  unfold Environment.calling
  split
  · exact nofun
  · next f _ =>
    dsimp only
    cases (host.call f arguments env state).1 <;> exact nofun

/-- What a tree means counts no levels. -/
def lockstep : Lockstep (Recursion.meaning host env) (Recursion.meaning host env) where
  Fits _ _ := True
  Holds _ act _ := Unbounded act
  parts _ _ := trivial
  pure := .pure
  bind := .bind
  node _ h := h
  lookup _ := rfl
  invoke _ := calling host env _

/-- What a program means counts no levels. -/
theorem program (p : Program) : Unbounded (p.meaning host env) :=
  (lockstep host env).statements .undefined p.statements fun _ _ _ _ => trivial

end Unbounded

end Meaning

/-- A program that was read is no higher than a limit that is four thirds
of the one it was read under, less one. -/
theorem Engine.height_le_of_parse {engine : Engine} {source : String} {p : Program}
    (hlimits : 4 * (engine.parseLimit - 1) ≤ 3 * engine.evalLimit)
    (h : engine.parse source = .ok p) : p.height ≤ engine.evalLimit := by
  obtain ⟨d, -, rfl, hdepth⟩ := Engine.exists_derivation h
  have hheight := d.height_le
  omega

/-- Reading fails for reasons of its own only. -/
theorem Engine.parse_ne_eval (engine : Engine) (source : String) (e : EvalError) :
    engine.parse source ≠ .error (.eval e) := by
  unfold Engine.parse
  split
  · exact nofun
  · next tokens _ => cases Program.ofTokens engine.parseLimit tokens <;> exact nofun

section Evaluate

variable {engine : Engine} {φ σ : Type} [HostFunction φ] {host : Host φ σ} {env : Environment φ}
  {source : String} {state : σ}

/-- A source fails to be evaluated as the program does that is read from
it. -/
theorem Engine.evaluate_eq_eval_iff {e : EvalError} :
    (engine.evaluate host env source state).1 = .error (.eval e) ↔
      ∃ p, engine.parse source = .ok p ∧ (engine.run host env p state).1 = .error e := by
  unfold Engine.evaluate
  cases hparse : engine.parse source with
  | error e' =>
    constructor
    · intro h
      cases h
      exact absurd hparse (engine.parse_ne_eval source e)
    · rintro ⟨p, hp, -⟩
      cases hp
  | ok p =>
    have hsame : ((engine.run host env p state).1.mapError Error.eval = .error (.eval e)) ↔
        (engine.run host env p state).1 = .error e := by
      cases (engine.run host env p state).1 with
      | error e' => exact ⟨fun h => by cases h; rfl, fun h => by cases h; rfl⟩
      | ok value => exact ⟨nofun, nofun⟩
    simpa using hsame

/-- Under such limits no source overflows the evaluator. -/
theorem Engine.evaluate_ne_stackOverflow
    (hlimits : 4 * (engine.parseLimit - 1) ≤ 3 * engine.evalLimit) (depth limit : Nat) :
    (engine.evaluate host env source state).1 ≠ .error (.eval (.stackOverflow depth limit)) := by
  rw [Ne, Engine.evaluate_eq_eval_iff]
  rintro ⟨p, hparse, hrun⟩
  -- there is room for the program, so it runs as it means
  rw [Engine.run_of_height_le (Engine.height_le_of_parse hlimits hparse)] at hrun
  exact Unbounded.program host env p state depth limit hrun

end Evaluate

-- ===================================================== the way to overflow

mutual

/-- The number of nodes on the way to the first node that is done. -/
def Expr.spine : Expr → Nat
  | .number _ | .text _ | .identifier _ => 1
  | .binary _ left _ => left.spine + 1
  | .conditional condition _ _ => condition.spine + 1
  | .call _ arguments => Expr.spineFirst arguments + 1
  | .group statement => Expr.spineFirst statement + 1

/-- The way to the first node of a row, if there is one. -/
def Expr.spineFirst : List Expr → Nat
  | [] => 0
  | e :: _ => e.spine

end

/-- The way to the first node of a program. -/
def Program.spine (p : Program) : Nat :=
  match p.statements with
  | [] => 0
  | s :: _ => Expr.spineFirst s

section Spine

variable {φ σ : Type}

/-- The step runs out of levels if fewer than these are left, and has done
nothing by then. -/
def Reaches {α : Type} (limit levels : Nat) (step : Step σ α) : Prop :=
  ∀ s, s.depth ≤ limit → limit < s.depth + levels →
    step s = (.error (.stackOverflow limit limit), s)

namespace Reaches

variable {α β : Type} {limit levels : Nat} {step : Step σ α}

/-- Nothing is fewer than no levels. -/
theorem none (step : Step σ α) : Reaches limit 0 step := fun _ _ _ => by omega

/-- What comes behind a step does not matter to it. -/
theorem bind (h : Reaches limit levels step) (next : α → Step σ β) :
    Reaches limit levels (step >>= next) := by
  intro s hle hlt
  rw [step_bind, h s hle hlt]

/-- A node is one of the levels. -/
theorem nested {ev : Evaluator φ σ} (h : Reaches ev.limit levels step) :
    Reaches ev.limit (levels + 1) (ev.nested step) := by
  intro s hle hlt
  unfold Evaluator.nested
  split
  · next hfull =>
    rw [Nat.le_antisymm hle hfull]
  · next hfull =>
    rw [h ⟨s.depth + 1, s.host⟩ (Nat.lt_of_not_le hfull)
      (by show ev.limit < s.depth + 1 + levels; omega)]
    rfl

variable [HostFunction φ] (ev : Evaluator φ σ)

mutual

/-- An expression overflows under any limit that its way to the first node
goes beyond. -/
theorem evalExpr (e : Expr) : Reaches ev.limit e.spine (ev.evalExpr e) := by
  cases e with
  | number x => exact (none _).nested
  | text s => exact (none _).nested
  | identifier name => exact (none _).nested
  | binary op left right => exact ((evalExpr left).bind _).nested
  | conditional condition whenTrue whenFalse => exact ((evalExpr condition).bind _).nested
  | call name arguments => exact ((evalEach arguments).bind _).nested
  | group statement => exact (evalLast .undefined statement).nested

theorem evalEach (row : List Expr) : Reaches ev.limit (Expr.spineFirst row) (ev.evalEach row) := by
  cases row with
  | nil => exact none _
  | cons e rest => exact (evalExpr e).bind _

theorem evalLast (last : Value φ) (row : List Expr) :
    Reaches ev.limit (Expr.spineFirst row) (ev.evalLast last row) := by
  cases row with
  | nil => exact none _
  | cons e rest => exact (evalExpr e).bind _

end

/-- A program overflows in its first statement. -/
theorem evalProgram (p : Program) : Reaches ev.limit p.spine (ev.evalProgram p) := by
  unfold Program.spine Evaluator.evalProgram
  cases p.statements with
  | nil => exact none _
  | cons s rest =>
    rw [List.foldlM_cons]
    exact (evalLast ev .undefined s).bind _

end Reaches

end Spine

/-- A program overflows under any limit that its way to the first node goes
beyond, whatever the names in it stand for. -/
theorem Engine.run_of_lt_spine {engine : Engine} {p : Program} (h : engine.evalLimit < p.spine)
    {φ σ : Type} [HostFunction φ] (host : Host φ σ) (env : Environment φ) (state : σ) :
    engine.run host env p state
      = (.error (.stackOverflow engine.evalLimit engine.evalLimit), state) := by
  have hreaches := Reaches.evalProgram ⟨host, env, engine.evalLimit⟩ p ⟨0, state⟩ (Nat.zero_le _)
    (by show engine.evalLimit < 0 + p.spine; omega)
  unfold Engine.run Evaluator.start
  rw [hreaches]

-- =============================================================== towers

namespace Tower

/-- A choice whose condition is a sum that begins with a product, which
begins with what the tower stands on. -/
def on (base : OfPrimary) : OfExpression :=
  .choice
    (.joined (.joined base .mul Operator.isAdditive_mul default (.single Spelling.one)) .add
      Operator.isAdditive_add default Spelling.one.sum)
    default Spelling.one.sum default Spelling.one.sum

/-- What a tower stands on: the next one, between parentheses. -/
def base : Nat → OfPrimary
  | 0 => Spelling.one
  | n + 1 => Spelling.enclosed (on (base n))

/-- The text of such a choice on a text. -/
def textOn (cs : List Char) : List Char := cs ++ ['*', '1', '+', '1', '?', '1', ':', '1']

/-- The text of what a tower stands on. -/
def baseText : Nat → List Char
  | 0 => ['1']
  | n + 1 => '(' :: (textOn (baseText n) ++ [')'])

/-- A tower of so many floors below the last one. -/
def program (n : Nat) : OfProgram := .last (.last (on (base n))) default

/-- The tower as a source, with its semicolon. -/
def source (n : Nat) : String := String.ofList (textOn (baseText n) ++ [';'])

/-- The text of one floor is read as the floor. -/
theorem spells_on {cs : List Char} {p : OfPrimary} (h : Spells cs p.yield) :
    Spells (textOn cs) (on p).yield := by
  have hone := Spelling.spells_one
  have harms := hone.append_parts (c := ':') (by decide) (hone.cons_sign rfl)
  have hchoice := hone.append_parts (c := '?') (by decide) (harms.cons_sign rfl)
  have hsum := hone.append_parts (c := '+') (by decide) (hchoice.cons_sign rfl)
  have hproduct := h.append_parts (c := '*') (by decide) (hsum.cons_sign rfl)
  simpa [textOn, on, Spells, OfExpression.yield, OfSum.yield, OfProduct.yield, OfPrimary.sum,
    Token.word, Operator.symbol] using hproduct

/-- What a tower stands on is read from its text. -/
theorem spells_base (n : Nat) : Spells (baseText n) (base n).yield := by
  induction n with
  | zero => exact Spelling.spells_one
  | succ n ih => exact Spelling.spells_enclosed (spells_on ih)

/-- The source is read as the tower. -/
theorem spells_program (n : Nat) : Spells (source n).toList (program n).yield := by
  have hended := (spells_on (spells_base n)).append_parts (c := ';') (by decide) (Reads.sign rfl)
  simpa [source, program, Spells, OfProgram.yield, OfStatement.yield, Token.word] using hended

/-- A floor is three levels on top of what it stands on. -/
theorem depth_on (p : OfPrimary) : (on p).depth = max p.depth 1 + 3 := by
  show max (max (max p.depth 1 + 1) 2 + 1) (max 2 2) + 1 = _
  omega

theorem depth_base (n : Nat) : max (base n).depth 1 = 3 * n + 1 := by
  induction n with
  | zero => rfl
  | succ n ih =>
    show max (on (base n)).depth 1 = _
    rw [depth_on]
    omega

/-- Three levels a floor, and four for what holds them. -/
theorem depth_program (n : Nat) : (program n).depth = 3 * n + 4 := by
  show (on (base n)).depth = _
  rw [depth_on, depth_base]

/-- Four nodes a floor: a group, a choice, a sum and a product. -/
theorem spine_base (n : Nat) : (base n).tree.spine = 4 * n + 1 := by
  induction n with
  | zero => rfl
  | succ n ih =>
    show (base n).tree.spine + 1 + 1 + 1 + 1 = _
    omega

/-- The last floor has no group around it. -/
theorem spine_program (n : Nat) : (program n).tree.spine = 4 * n + 4 := by
  show (base n).tree.spine + 1 + 1 + 1 = _
  rw [spine_base]

end Tower

/-- Where the limit for nodes is four thirds of the one for levels, less
one, no source overflows the evaluator, and none does under the default
limits. Lower limits do not do: a tower of `n` groups is read with
`3 * n + 4` levels, and overflows exactly with fewer nodes than
`4 * n + 4`. -/
theorem Engine.evaluate_within_levels :
    (∀ (engine : Engine), 4 * (engine.parseLimit - 1) ≤ 3 * engine.evalLimit →
      ∀ {φ σ : Type} [HostFunction φ] (host : Host φ σ) (env : Environment φ) (source : String)
        (state : σ) (depth limit : Nat),
        (engine.evaluate host env source state).1 ≠ .error (.eval (.stackOverflow depth limit))) ∧
    (∀ {φ σ : Type} [HostFunction φ] (host : Host φ σ) (env : Environment φ) (source : String)
      (state : σ) (depth limit : Nat), ((default : Engine).evaluate host env source state).1
        ≠ .error (.eval (.stackOverflow depth limit))) ∧
    ∀ n, ∃ source, ∀ evalLimit, (∃ p, (Engine.mk (3 * n + 4) evalLimit).parse source = .ok p) ∧
      ∀ {φ σ : Type} [HostFunction φ] (host : Host φ σ) (env : Environment φ) (state : σ),
        ((∃ depth limit, ((Engine.mk (3 * n + 4) evalLimit).evaluate host env source state).1
          = .error (.eval (.stackOverflow depth limit))) ↔ evalLimit < 4 * n + 4) := by
  refine ⟨fun engine hlimits => fun _ _ _ _ => Engine.evaluate_ne_stackOverflow hlimits,
    fun _ _ _ _ => Engine.evaluate_ne_stackOverflow (by decide),
    fun n => ⟨Tower.source n, fun evalLimit => ?_⟩⟩
  have hparse : (Engine.mk (3 * n + 4) evalLimit).parse (Tower.source n)
      = .ok (Tower.program n).tree :=
    (Engine.parse_of_spells (Tower.spells_program n) _).1 (Nat.le_of_eq (Tower.depth_program n))
  refine ⟨⟨_, hparse⟩, fun host env state => ⟨?_, fun hless => ?_⟩⟩
  · rintro ⟨depth, limit, hoverflow⟩
    refine Nat.lt_of_not_le fun hle => ?_
    exact Engine.evaluate_ne_stackOverflow (by show 4 * (3 * n + 4 - 1) ≤ 3 * evalLimit; omega)
      depth limit hoverflow
  · -- the way to the first node is too long whatever comes behind it
    have hspine : evalLimit < (Tower.program n).tree.spine := by rwa [Tower.spine_program]
    refine ⟨evalLimit, evalLimit, Engine.evaluate_eq_eval_iff.2 ⟨_, hparse, ?_⟩⟩
    rw [Engine.run_of_lt_spine hspine]

/-- Eight nodes are enough for seven levels, and seven are not. -/
theorem Engine.evaluate_within_levels_seven :
    4 * ((Engine.mk 7 8).parseLimit - 1) ≤ 3 * (Engine.mk 7 8).evalLimit ∧
    (∀ {φ σ : Type} [HostFunction φ] (host : Host φ σ) (env : Environment φ) (source : String)
      (state : σ) (depth limit : Nat), ((Engine.mk 7 8).evaluate host env source state).1
        ≠ .error (.eval (.stackOverflow depth limit))) ∧
    ∃ source, ∀ {φ σ : Type} [HostFunction φ] (host : Host φ σ) (env : Environment φ) (state : σ),
      ∃ depth limit, ((Engine.mk 7 7).evaluate host env source state).1
        = .error (.eval (.stackOverflow depth limit)) := by
  have hlimits : 4 * ((Engine.mk 7 8).parseLimit - 1) ≤ 3 * (Engine.mk 7 8).evalLimit := by decide
  obtain ⟨hnever, -, htowers⟩ := Engine.evaluate_within_levels
  obtain ⟨source, htower⟩ := htowers 1
  exact ⟨hlimits, hnever _ hlimits, source,
    fun host env state => ((htower 7).2 host env state).2 (by decide)⟩

end Reckoner
