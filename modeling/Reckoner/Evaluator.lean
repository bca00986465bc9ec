/-
The value of a program. The tree is walked from left to right, each node
once at most: operands before their operator, arguments before the
function they go to is looked up, and of a conditional's arms only the
chosen one. The first failure ends the walk, but what the host has done
until then stays done, so every step passes the host's state on.

A counter holds the number of nodes that are open around the one in hand.
A node is refused when the counter has reached the limit; otherwise the
counter goes up for the time of the node and down again when the node is
done, failed or not. An evaluator can therefore be used again after any
outcome.
-/
import Reckoner.Host.Basic
import Reckoner.Program.Basic
import Reckoner.Value.Coercion

namespace Reckoner

-- ============================================================== errors

/-- Why a name cannot be called. -/
inductive Refusal where
  /-- It is bound to nothing. -/
  | unbound
  /-- It is bound to a value of another type. -/
  | notAFunction (typeName : String)
  /-- It is bound to a function that does not take so many arguments. -/
  | arityRejected (count : Nat)
deriving DecidableEq

/-- Why a program has no value. -/
inductive EvalError where
  | notCallable (name : String) (refusal : Refusal)
  /-- The function that a name is bound to reported an error. -/
  | callFailed (name : String) (error : CallError)
  /-- A node nested deeper than the limit. -/
  | stackOverflow (depth limit : Nat)
deriving DecidableEq

-- ======================================================= the evaluator

/-- What stays the same while programs are evaluated. -/
structure Evaluator (φ σ : Type) where
  host : Host φ σ
  environment : Environment φ
  /-- The number of nodes that may be open at once. -/
  limit : Nat

namespace Evaluator

/-- What changes from step to step. -/
structure State (σ : Type) where
  /-- The number of nodes that are open. -/
  depth : Nat
  host : σ

/-- A step, which yields a value or fails, and passes the state on in
either case. -/
abbrev Step (σ α : Type) := ExceptT EvalError (StateM (State σ)) α

/-- A step that follows another runs on what the other yields and leaves,
and not at all if the other fails, whatever the state they pass on. -/
theorem step_bind {τ α β : Type} (step : ExceptT EvalError (StateM τ) α)
    (next : α → ExceptT EvalError (StateM τ) β) (s : τ) :
    (step >>= next) s =
      match step s with
      | (.ok a, s) => next a s
      | (.error e, s) => (.error e, s) := by
  change (ExceptT.bind step next) s = _
  unfold ExceptT.bind ExceptT.mk
  change (StateT.bind step (ExceptT.bindCont next)) s = _
  unfold StateT.bind
  rcases step s with ⟨_ | a, s⟩ <;> rfl

variable {φ σ : Type}

/-- Runs the step of a node, one level further down. -/
def nested {α : Type} (ev : Evaluator φ σ) (step : Step σ α) : Step σ α := fun s =>
  if ev.limit ≤ s.depth then (.error (.stackOverflow s.depth ev.limit), s)
  else
    let (outcome, s) := step { s with depth := s.depth + 1 }
    (outcome, { s with depth := s.depth - 1 })

variable [HostFunction φ]

/-- The function that a name stands for in a call with so many
arguments. -/
def callee (ev : Evaluator φ σ) (name : String) (count : Nat) : Except Refusal φ :=
  match ev.environment.get? name with
  | none => .error .unbound
  | some (.function f) =>
    if HostFunction.accepts f count then .ok f else .error (.arityRejected count)
  | some other => .error (.notAFunction other.typeName)

/-- Calls what a name is bound to. -/
def invoke (ev : Evaluator φ σ) (name : String) (arguments : List (Value φ)) :
    Step σ (Value φ) := fun s =>
  match ev.callee name arguments.length with
  | .error refusal => (.error (.notCallable name refusal), s)
  | .ok f =>
    let (outcome, host) := ev.host.call f arguments ev.environment s.host
    (outcome.mapError (.callFailed name), { s with host })

mutual

/-- The value of an expression. -/
def evalExpr (ev : Evaluator φ σ) : Expr → Step σ (Value φ)
  | .number x => ev.nested (pure (.number x))
  | .text s => ev.nested (pure (.text s))
  | .identifier name => ev.nested (pure ((ev.environment.get? name).getD .undefined))
  | .binary op left right => ev.nested do
    let x ← ev.evalExpr left
    let y ← ev.evalExpr right
    pure (x.combine op y)
  | .conditional condition whenTrue whenFalse => ev.nested do
    let x ← ev.evalExpr condition
    if x.isTruthy then ev.evalExpr whenTrue else ev.evalExpr whenFalse
  | .call name arguments => ev.nested do
    let values ← ev.evalEach arguments
    ev.invoke name values
  | .group statement => ev.nested (ev.evalLast .undefined statement)

/-- The values of expressions, in order. -/
def evalEach (ev : Evaluator φ σ) : List Expr → Step σ (List (Value φ))
  | [] => pure []
  | e :: rest => do
    let x ← ev.evalExpr e
    let xs ← ev.evalEach rest
    pure (x :: xs)

/-- The value of the last of some expressions, all being evaluated in
order; `last` is the value of the one before them. -/
def evalLast (ev : Evaluator φ σ) (last : Value φ) : List Expr → Step σ (Value φ)
  | [] => pure last
  | e :: rest => do
    let x ← ev.evalExpr e
    ev.evalLast x rest

end

/-- The value of a statement is that of its last expression. -/
def evalStatement (ev : Evaluator φ σ) (statement : Statement) : Step σ (Value φ) :=
  ev.evalLast .undefined statement

/-- The value of a program is that of its last statement. -/
def evalProgram (ev : Evaluator φ σ) (program : Program) : Step σ (Value φ) :=
  program.statements.foldlM (fun _ statement => ev.evalStatement statement) .undefined

/-- Runs a step from a host state, with no node open. -/
def start {α : Type} (step : Step σ α) (host : σ) : Except EvalError α × σ :=
  let (outcome, s) := step ⟨0, host⟩
  (outcome, s.host)

end Evaluator

end Reckoner
