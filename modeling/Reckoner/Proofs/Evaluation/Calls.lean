/-
The calls that a program makes. A host cannot be asked what it was asked,
so it is put behind one that writes every call down before it is
answered. Nothing else changes: the evaluator looks at the state of a
host through the host alone, so what it does under the second host is
what it does under the first, seen through the part of the state that the
first one keeps.
-/
import Reckoner.Engine
import Reckoner.Proofs.Evaluation.Recursion

namespace Reckoner

/-- A call as the host sees it: a function and what it is called with. -/
abbrev Call (φ : Type) := φ × List (Value φ)

/-- The same host, with a record of the calls behind its state. -/
def Host.recorded {φ σ : Type} (host : Host φ σ) : Host φ (σ × List (Call φ)) :=
  ⟨fun f arguments env s =>
    let (outcome, state) := host.call f arguments env s.1
    (outcome, state, s.2 ++ [(f, arguments)])⟩

/-- The calls that a program makes, in order. -/
def Engine.calls {φ σ : Type} [HostFunction φ] (engine : Engine) (host : Host φ σ)
    (env : Environment φ) (program : Program) (state : σ) : List (Call φ) :=
  (engine.run host.recorded env program (state, [])).2.2

namespace Evaluator

variable {φ σ τ : Type}

-- ====================================================== hosts seen through

/-- Seen through the view, the second host does what the first one
does. -/
def Shows (view : σ → τ) (host : Host φ σ) (host' : Host φ τ) : Prop :=
  ∀ f arguments env state, host'.call f arguments env (view state)
    = ((host.call f arguments env state).1, view (host.call f arguments env state).2)

/-- The same for two steps, which leave the counter alike as well. -/
def Seen {α : Type} (view : σ → τ) (step : Step σ α) (step' : Step τ α) : Prop :=
  ∀ depth state, step' ⟨depth, view state⟩
    = ((step ⟨depth, state⟩).1,
      ⟨(step ⟨depth, state⟩).2.depth, view (step ⟨depth, state⟩).2.host⟩)

namespace Seen

variable {α β : Type} {view : σ → τ} {step : Step σ α} {step' : Step τ α}

theorem pure (a : α) : Seen view (pure a) (pure a) := fun _ _ => rfl

/-- What is seen of two steps is seen of one after the other. -/
theorem bind {next : α → Step σ β} {next' : α → Step τ β} (h : Seen view step step')
    (hnext : ∀ a, Seen view (next a) (next' a)) : Seen view (step >>= next) (step' >>= next') := by
  intro depth state
  rw [step_bind, step_bind, h depth state]
  rcases step ⟨depth, state⟩ with ⟨e | a, s⟩
  · rfl
  · exact hnext a s.depth s.host

theorem nested {ev : Evaluator φ σ} {ev' : Evaluator φ τ} (hlimit : ev'.limit = ev.limit)
    (h : Seen view step step') : Seen view (ev.nested step) (ev'.nested step') := by
  intro depth state
  unfold Evaluator.nested
  rw [hlimit]
  dsimp only
  by_cases hdepth : ev.limit ≤ depth
  · rw [if_pos hdepth, if_pos hdepth]
  · rw [if_neg hdepth, if_neg hdepth, h (depth + 1) state]
    rfl

end Seen

section Views

variable [HostFunction φ] {host : Host φ σ} {host' : Host φ τ} {view : σ → τ}
  (env : Environment φ) (limit : Nat)

/-- A call is seen through the view as a call of the other host. -/
theorem seen_invoke (hview : Shows view host host') (name : String)
    (arguments : List (Value φ)) :
    Seen view (invoke ⟨host, env, limit⟩ name arguments)
      (invoke ⟨host', env, limit⟩ name arguments) := by
  intro depth state
  have hcallee : callee ⟨host', env, limit⟩ name arguments.length
      = callee ⟨host, env, limit⟩ name arguments.length := rfl
  unfold invoke
  rw [hcallee]
  cases callee ⟨host, env, limit⟩ name arguments.length with
  | error refusal => rfl
  | ok f =>
    show ((host'.call f arguments env (view state)).1.mapError _,
      (⟨depth, (host'.call f arguments env (view state)).2⟩ : State τ)) = _
    rw [hview f arguments env state]

/-- Under the two hosts evaluators keep step. -/
def Seen.lockstep (hview : Shows view host host') :
    Lockstep (recursion ⟨host, env, limit⟩) (recursion ⟨host', env, limit⟩) where
  Fits _ _ := True
  Holds _ step step' := Seen view step step'
  parts _ _ := trivial
  pure := .pure
  bind := .bind
  node _ h := h.nested rfl
  lookup _ := rfl
  invoke _ values := seen_invoke env limit hview _ values

/-- So is an expression, whatever calls it makes. -/
theorem seen_evalExpr (hview : Shows view host host') (e : Expr) :
    Seen view (evalExpr ⟨host, env, limit⟩ e) (evalExpr ⟨host', env, limit⟩ e) :=
  (Seen.lockstep env limit hview).expr (n := 0) e trivial

/-- And a row of them. -/
theorem seen_evalLast (hview : Shows view host host') (last : Value φ) (row : List Expr) :
    Seen view (evalLast ⟨host, env, limit⟩ last row) (evalLast ⟨host', env, limit⟩ last row) :=
  (Seen.lockstep env limit hview).last (n := 0) last row fun _ _ => trivial

/-- A program does the same for two hosts of which one is a view of the
other. -/
theorem seen_evalProgram (hview : Shows view host host') (p : Program) :
    Seen view (evalProgram ⟨host, env, limit⟩ p) (evalProgram ⟨host', env, limit⟩ p) :=
  (Seen.lockstep env limit hview).statements .undefined p.statements fun _ _ _ _ => trivial

end Views

end Evaluator

variable {φ σ : Type} [HostFunction φ]

/-- Writing the calls down changes neither the outcome nor what becomes of
the host's own state. -/
theorem Engine.run_recorded (engine : Engine) (host : Host φ σ) (env : Environment φ)
    (p : Program) (state : σ) (calls : List (Call φ)) :
    engine.run host env p state
      = ((engine.run host.recorded env p (state, calls)).1,
        (engine.run host.recorded env p (state, calls)).2.1) := by
  have hview : Evaluator.Shows Prod.fst host.recorded host := fun _ _ _ _ => rfl
  have hseen : Evaluator.evalProgram ⟨host, env, engine.evalLimit⟩ p ⟨0, state⟩ = _ :=
    Evaluator.seen_evalProgram env engine.evalLimit hview p 0 (state, calls)
  unfold Engine.run Evaluator.start
  rw [hseen]
  rfl

end Reckoner
