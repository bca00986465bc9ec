/-
What a program has of its environment. It asks for the names in it and for
no others: an identifier for a value, a call for the function that is to be
called. So two environments that bind these names alike are the same to the
program, but for one thing. A function that is called sees the environment
as a whole, and may tell the two apart where the program cannot; for the
functions that calls go to this has to be excluded. A function that is only
handed on, as a value, is free to.

An expression is then not merely evaluated to the same outcome in both: its
step is the same step. No states have to be compared, and the recursion is
along the tree alone.
-/
import Reckoner.Host.Builtin
import Reckoner.Proofs.Evaluation.Calls

namespace Reckoner

open Evaluator

-- ============================================================== the uses

/-- What a node asks an environment for. -/
inductive Use where
  /-- The value of an identifier. -/
  | value (name : String)
  /-- The function of a call. -/
  | call (name : String)
deriving DecidableEq

/-- The name that is asked for. -/
def Use.name : Use → String
  | value name | call name => name

mutual

/-- What the nodes of an expression ask for, in the arms of conditionals
too. -/
def Expr.uses : Expr → List Use
  | .number _ | .text _ => []
  | .identifier name => [.value name]
  | .binary _ left right => left.uses ++ right.uses
  | .conditional condition whenTrue whenFalse =>
    condition.uses ++ (whenTrue.uses ++ whenFalse.uses)
  | .call name arguments => Expr.usesAll arguments ++ [.call name]
  | .group statement => Expr.usesAll statement

def Expr.usesAll : List Expr → List Use
  | [] => []
  | e :: rest => e.uses ++ Expr.usesAll rest

end

theorem Expr.mem_usesAll {use : Use} {row : List Expr} :
    use ∈ Expr.usesAll row ↔ ∃ e ∈ row, use ∈ e.uses := by
  induction row with
  | nil => simp [Expr.usesAll]
  | cons e rest ih => simp [Expr.usesAll, ih]

/-- What a part of an expression asks for, the expression asks for. -/
theorem Expr.mem_uses_of_mem_parts {use : Use} {e part : Expr} (hpart : part ∈ e.parts)
    (h : use ∈ part.uses) : use ∈ e.uses := by
  cases e with
  | number | text | identifier => cases hpart
  | binary op left right =>
    have hparts : part = left ∨ part = right := by simpa [Expr.parts] using hpart
    rw [Expr.uses, List.mem_append]
    rcases hparts with rfl | rfl
    · exact .inl h
    · exact .inr h
  | conditional condition whenTrue whenFalse =>
    have hparts : part = condition ∨ part = whenTrue ∨ part = whenFalse := by
      simpa [Expr.parts] using hpart
    rw [Expr.uses, List.mem_append, List.mem_append]
    rcases hparts with rfl | rfl | rfl
    · exact .inl h
    · exact .inr (.inl h)
    · exact .inr (.inr h)
  | call name arguments => exact List.mem_append_left _ (Expr.mem_usesAll.2 ⟨part, hpart, h⟩)
  | group statement => exact Expr.mem_usesAll.2 ⟨part, hpart, h⟩

def Program.uses (p : Program) : List Use := p.statements.flatMap Expr.usesAll

-- ================================================= the same environments

section Alike

variable {φ σ : Type}

/-- The functions that are called here do the same in both environments. -/
def ServesAlike (host : Host φ σ) (env env' : Environment φ) (uses : List Use) : Prop :=
  ∀ name f, .call name ∈ uses → env.get? name = some (.function f) → ∀ arguments state,
    host.call f arguments env' state = host.call f arguments env state

/-- In these uses the two environments are the same. -/
structure Alike (host : Host φ σ) (env env' : Environment φ) (uses : List Use) : Prop where
  bound : ∀ use ∈ uses, env'.get? use.name = env.get? use.name
  served : ServesAlike host env env' uses

theorem ServesAlike.recorded {host : Host φ σ} {env env' : Environment φ} {uses : List Use}
    (h : ServesAlike host env env' uses) : ServesAlike host.recorded env env' uses := by
  intro name f hcall hbound arguments state
  have hsame := h name f hcall hbound arguments state.1
  exact congrArg (fun answer => (answer.1, answer.2, state.2 ++ [(f, arguments)])) hsame

namespace Alike

variable {host : Host φ σ} {env env' : Environment φ} {uses fewer : List Use}

/-- So they are where less is asked for. -/
theorem mono (h : Alike host env env' uses) (hless : ∀ use ∈ fewer, use ∈ uses) :
    Alike host env env' fewer :=
  ⟨fun use huse => h.bound use (hless use huse),
    fun name f hcall => h.served name f (hless (.call name) hcall)⟩

end Alike

end Alike

-- ======================================================== the same steps

section Steps

variable {φ σ : Type} [HostFunction φ] {host : Host φ σ} {env env' : Environment φ}

/-- Only what a name is bound to is called. -/
theorem Evaluator.bound_of_callee {ev : Evaluator φ σ} {name : String} {count : Nat} {f : φ}
    (h : ev.callee name count = .ok f) : ev.environment.get? name = some (.function f) := by
  unfold callee at h
  split at h
  · cases h
  · next g hbound =>
    split at h
    · cases h
      exact hbound
    · cases h
  · cases h

theorem Evaluator.invoke_alike (limit : Nat) {name : String}
    (h : Alike host env env' [.call name]) :
    invoke ⟨host, env', limit⟩ name = invoke ⟨host, env, limit⟩ name := by
  funext values s
  have hbound : env'.get? name = env.get? name := h.bound _ (List.mem_singleton_self _)
  have hcallee : callee ⟨host, env', limit⟩ name values.length
      = callee ⟨host, env, limit⟩ name values.length := by
    unfold callee
    dsimp only
    rw [hbound]
  unfold invoke
  rw [hcallee]
  cases hfound : callee ⟨host, env, limit⟩ name values.length with
  | error refusal => rfl
  | ok f =>
    have hsame := h.served name f (List.mem_singleton_self _) (bound_of_callee hfound) values s.host
    exact congrArg (fun answer => (answer.1.mapError (EvalError.callFailed name),
      ({ s with host := answer.2 } : State σ))) hsame

/-- Where both environments are the same to an expression, it is evaluated by
the same step. -/
def Alike.lockstep (host : Host φ σ) (env env' : Environment φ) (limit : Nat) :
    Lockstep (recursion ⟨host, env', limit⟩) (recursion ⟨host, env, limit⟩) where
  Fits _ e := Alike host env env' e.uses
  Holds _ step step' := step = step'
  parts h hpart := h.mono fun _ huse => Expr.mem_uses_of_mem_parts hpart huse
  pure _ := rfl
  bind h hnext := by rw [h, funext hnext]
  node _ h := congrArg _ h
  lookup h := congrArg (·.getD .undefined) (h.bound _ (List.mem_singleton_self _))
  invoke h values := by
    have hcall := invoke_alike limit (h.mono fun _ huse => List.mem_append_right _ huse)
    exact congrFun hcall values

theorem Program.evalProgram_alike (limit : Nat) (p : Program) (h : Alike host env env' p.uses) :
    evalProgram ⟨host, env', limit⟩ p = evalProgram ⟨host, env, limit⟩ p := by
  refine (Alike.lockstep host env env' limit).statements .undefined p.statements
    fun s hs e he => h.mono fun use huse => ?_
  exact List.mem_flatMap.2 ⟨s, hs, Expr.mem_usesAll.2 ⟨e, he, huse⟩⟩

end Steps

-- ============================================================= whole runs

/-- Where two environments bind each name of a program alike, the program
runs alike in both, under any limit: the outcome is the same, so is the
state that is left of the host, and the same calls are made. The functions
that its calls go to must do the same in both environments whatever they
are called with; a program without calls needs nothing of the kind. -/
theorem Engine.run_alike {φ σ : Type} [HostFunction φ] {env env' : Environment φ} {p : Program}
    (h : ∀ use ∈ p.uses, env'.get? use.name = env.get? use.name) (engine : Engine)
    (host : Host φ σ) (state : σ) :
    (ServesAlike host env env' p.uses →
        engine.run host env' p state = engine.run host env p state ∧
          engine.calls host env' p state = engine.calls host env p state) ∧
      ((∀ name, .call name ∉ p.uses) →
        engine.run host env' p state = engine.run host env p state ∧
          engine.calls host env' p state = engine.calls host env p state) := by
  have halike (hserved : ServesAlike host env env' p.uses) :
      engine.run host env' p state = engine.run host env p state ∧
        engine.calls host env' p state = engine.calls host env p state := by
    unfold calls run
    rw [p.evalProgram_alike engine.evalLimit ⟨h, hserved⟩,
      p.evalProgram_alike engine.evalLimit ⟨h, hserved.recorded⟩]
    exact ⟨rfl, rfl⟩
  exact ⟨halike, fun hfree => halike fun name _ hcall => absurd hcall (hfree name)⟩

/-- A name for a function that counts its arguments, and one for a function
that lists the names of the environment. -/
def listingNames : Environment Builtin :=
  (Environment.empty.registerFunction ⟨0, "count", .any, .count⟩).registerFunction
    ⟨1, "names", .any, .names⟩

/-- The program `count(names) ? missing : count();`. -/
def discreetProgram : Program :=
  ⟨[[.conditional (.call "count" [.identifier "names"]) (.identifier "missing")
    (.call "count" [])]]⟩

/-- One name more makes no difference to a program that does not have it,
although it has the function that would see it. To one that calls this
function it does. -/
theorem Engine.run_alike_discreet :
    (∀ use ∈ discreetProgram.uses, (listingNames.register "more" .undefined).get? use.name
        = listingNames.get? use.name) ∧
      ServesAlike (Builtin.host 1) listingNames (listingNames.register "more" .undefined)
        discreetProgram.uses ∧
      Engine.run default (Builtin.host 1) (listingNames.register "more" .undefined)
          discreetProgram .empty
        = Engine.run default (Builtin.host 1) listingNames discreetProgram .empty ∧
      (Engine.run default (Builtin.host 1) (listingNames.register "more" .undefined)
          ⟨[[.call "names" []]]⟩ .empty).1.toOption.bind Value.text? = some "count,more,names" ∧
      (Engine.run default (Builtin.host 1) listingNames
          ⟨[[.call "names" []]]⟩ .empty).1.toOption.bind Value.text? = some "count,names" := by
  have hother : ∀ use ∈ discreetProgram.uses, "more" ≠ use.name := by decide
  have hbound : ∀ use ∈ discreetProgram.uses,
      (listingNames.register "more" .undefined).get? use.name = listingNames.get? use.name :=
    fun use huse => by rw [Environment.get?_register, if_neg (hother use huse)]
  have hcount : listingNames.get? "count" = some (.function ⟨0, "count", .any, .count⟩) := by
    simp [listingNames, Environment.registerFunction, Environment.get?_register, HostFunction.name]
  have hserved : ServesAlike (Builtin.host 1) listingNames
      (listingNames.register "more" .undefined) discreetProgram.uses := by
    intro name f hcall hfunction arguments state
    obtain rfl : name = "count" := by
      simpa [discreetProgram, Program.uses, Expr.usesAll, Expr.uses] using hcall
    rw [hcount] at hfunction
    cases hfunction
    rfl
  exact ⟨hbound, hserved, ((Engine.run_alike hbound default (Builtin.host 1) .empty).1 hserved).1,
    by decide +kernel, by decide +kernel⟩

end Reckoner
