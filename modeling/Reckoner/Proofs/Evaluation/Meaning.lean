/-
Evaluation without a limit. The limit is there to protect the machine and
not part of what a program means: under a limit that the tree does not
reach, evaluation is the plain walk over the tree, and the counter of open
nodes is only passed along. The walk is defined here without it, so
that what a tree means can be compared with what another one means.

A step follows an action from a counter if it does what the action does.
That is kept when steps are put together, and at a node wherever there is
room for it under the limit.
-/
import Reckoner.Engine
import Reckoner.Proofs.Evaluation.Recursion

namespace Reckoner

-- ============================================================ heights

mutual

/-- The most nodes on a way down the tree. -/
def Expr.height : Expr → Nat
  | .number _ | .text _ | .identifier _ => 1
  | .binary _ left right => max left.height right.height + 1
  | .conditional condition whenTrue whenFalse =>
    max condition.height (max whenTrue.height whenFalse.height) + 1
  | .call _ arguments => Expr.heightAll arguments + 1
  | .group statement => Expr.heightAll statement + 1

def Expr.heightAll : List Expr → Nat
  | [] => 0
  | e :: rest => max e.height (Expr.heightAll rest)

end

/-- The levels of the deepest expression of the program. -/
def Program.height (p : Program) : Nat := (p.statements.map Expr.heightAll).foldr max 0

theorem Expr.height_pos (e : Expr) : 0 < e.height := by
  cases e <;> exact Nat.succ_pos _

theorem Expr.height_le_heightAll {e : Expr} {row : List Expr} (h : e ∈ row) :
    e.height ≤ Expr.heightAll row := by
  induction h with
  | head rest => exact Nat.le_max_left _ _
  | tail first _ ih => exact Nat.le_trans ih (Nat.le_max_right _ _)

/-- A part of an expression is not as high. -/
theorem Expr.height_lt_of_mem_parts {e part : Expr} (h : part ∈ e.parts) :
    part.height < e.height := by
  cases e with
  | number | text | identifier => cases h
  | binary op left right =>
    have hparts : part = left ∨ part = right := by simpa [Expr.parts] using h
    rw [Expr.height]
    rcases hparts with rfl | rfl <;> omega
  | conditional condition whenTrue whenFalse =>
    have hparts : part = condition ∨ part = whenTrue ∨ part = whenFalse := by
      simpa [Expr.parts] using h
    rw [Expr.height]
    rcases hparts with rfl | rfl | rfl <;> omega
  | call name arguments => exact Nat.lt_succ_of_le (Expr.height_le_heightAll h)
  | group statement => exact Nat.lt_succ_of_le (Expr.height_le_heightAll h)

/-- No expression of a program is higher than the program. -/
theorem Program.height_le {p : Program} {s : Statement} {e : Expr} (hs : s ∈ p.statements)
    (he : e ∈ s) : e.height ≤ p.height := by
  refine Nat.le_trans (Expr.height_le_heightAll he) ?_
  unfold Program.height
  generalize p.statements = ss at hs ⊢
  induction hs with
  | head rest => exact Nat.le_max_left _ _
  | tail first _ ih => exact Nat.le_trans ih (Nat.le_max_right _ _)

open Evaluator

-- ================================================== without a counter

section Meaning

variable {φ σ : Type} [HostFunction φ] (host : Host φ σ) (env : Environment φ)

/-- A call by name: the function that is bound there, or the refusal. -/
def Environment.calling (name : String) (arguments : List (Value φ)) : Action σ (Value φ) :=
  fun state =>
    match callee ⟨host, env, 0⟩ name arguments.length with
    | .error refusal => (.error (.notCallable name refusal), state)
    | .ok f =>
      let (outcome, state) := host.call f arguments env state
      (outcome.mapError (.callFailed name), state)

mutual

/-- What an expression means. -/
def Expr.meaning : Expr → Action σ (Value φ)
  | .number x => pure (.number x)
  | .text s => pure (.text s)
  | .identifier name => pure ((env.get? name).getD .undefined)
  | .binary op left right => do
    let x ← left.meaning
    let y ← right.meaning
    pure (x.combine op y)
  | .conditional condition whenTrue whenFalse => do
    let x ← condition.meaning
    if x.isTruthy then whenTrue.meaning else whenFalse.meaning
  | .call name arguments => do
    let values ← Expr.meaningEach arguments
    env.calling host name values
  | .group statement => Expr.meaningLast .undefined statement

/-- The values of a row, in order. -/
def Expr.meaningEach : List Expr → Action σ (List (Value φ))
  | [] => pure []
  | e :: rest => do
    let x ← e.meaning
    let xs ← Expr.meaningEach rest
    pure (x :: xs)

/-- What a row means, whose value is that of its last expression. -/
def Expr.meaningLast (last : Value φ) : List Expr → Action σ (Value φ)
  | [] => pure last
  | e :: rest => do
    let x ← e.meaning
    Expr.meaningLast x rest

end

/-- The value of the last statement, with no limit on the levels. -/
def Program.meaning (p : Program) : Action σ (Value φ) :=
  p.statements.foldlM (fun _ s => Expr.meaningLast host env .undefined s) Value.undefined

/-- Where nothing is counted, nodes and levels make no difference. -/
def Recursion.meaning : Recursion φ σ where
  node := fun _ {_} act => act
  lookup name := (env.get? name).getD .undefined
  invoke := env.calling host
  expr _ := Expr.meaning host env
  each _ := Expr.meaningEach host env
  last _ := Expr.meaningLast host env
  number _ _ := rfl
  text _ _ := rfl
  identifier _ _ := rfl
  binary _ _ _ _ := rfl
  conditional _ _ _ _ := rfl
  call _ _ _ := rfl
  group _ _ := rfl
  each_nil _ := rfl
  each_cons _ _ _ := rfl
  last_nil _ _ := rfl
  last_cons _ _ _ _ := rfl

end Meaning

namespace Evaluator

variable {φ σ : Type}

-- =================================================== room for the counter

/-- From a counter that says `depth`, the step does what the action does. -/
def Follows {α : Type} (depth : Nat) (step : Step σ α) (act : Action σ α) : Prop :=
  ∀ state, step ⟨depth, state⟩ = ((act state).1, ⟨depth, (act state).2⟩)

namespace Follows

variable {α β : Type} {depth : Nat} {step : Step σ α} {act : Action σ α}

/-- One step after another follows one meaning after another. -/
theorem bind {next : α → Step σ β} {follow : α → Action σ β} (h : Follows depth step act)
    (hnext : ∀ a, Follows depth (next a) (follow a)) :
    Follows depth (step >>= next) (act >>= follow) := by
  intro state
  rw [step_bind, step_bind, h state]
  rcases act state with ⟨e | a, state'⟩
  · rfl
  · exact hnext a state'

/-- A node takes one level. -/
theorem nested {ev : Evaluator φ σ} (room : depth < ev.limit) (h : Follows (depth + 1) step act) :
    Follows depth (ev.nested step) act := by
  intro state
  unfold Evaluator.nested
  rw [if_neg (Nat.not_le_of_lt room), h state]
  rfl

variable [HostFunction φ] (ev : Evaluator φ σ)

theorem calling (depth : Nat) (name : String) (arguments : List (Value φ)) :
    Follows depth (ev.invoke name arguments)
      (ev.environment.calling ev.host name arguments) := by
  intro state
  have hcallee : callee ⟨ev.host, ev.environment, 0⟩ name arguments.length
      = ev.callee name arguments.length := rfl
  unfold invoke Environment.calling
  rw [hcallee]
  cases ev.callee name arguments.length <;> rfl

/-- With room for the tree, an expression is evaluated to what it means. -/
def lockstep : Lockstep ev.recursion (Recursion.meaning ev.host ev.environment) where
  Fits depth e := depth + e.height ≤ ev.limit
  Holds depth step act := Follows depth step act
  parts hfits hpart := by
    have hless := Expr.height_lt_of_mem_parts hpart
    omega
  pure _ _ := rfl
  bind := .bind
  node hfits h := by
    have hroom := Nat.lt_of_lt_of_le (Nat.lt_add_of_pos_right (Expr.height_pos _)) hfits
    exact h.nested hroom
  lookup _ := rfl
  invoke _ := calling ev _ _

end Follows

end Evaluator

/-- Under a limit that a program does not reach, the engine gives what the
program means. -/
theorem Engine.run_of_height_le {φ σ : Type} [HostFunction φ] {engine : Engine} {p : Program}
    (h : p.height ≤ engine.evalLimit) (host : Host φ σ) (env : Environment φ) (state : σ) :
    engine.run host env p state = p.meaning host env state := by
  have hfits : ∀ s ∈ p.statements, ∀ e ∈ s, 0 + e.height ≤ engine.evalLimit := fun s hs e he => by
    have hle := Program.height_le hs he
    omega
  have hfollows : Evaluator.evalProgram ⟨host, env, engine.evalLimit⟩ p ⟨0, state⟩ = _ :=
    (Follows.lockstep ⟨host, env, engine.evalLimit⟩).statements .undefined p.statements hfits state
  unfold Engine.run Evaluator.start
  rw [hfollows]
  rfl

end Reckoner
