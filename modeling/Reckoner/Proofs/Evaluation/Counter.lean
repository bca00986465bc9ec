/-
The counter while an evaluator works. It changes at nodes only, and what
is done at a node is done by one function, which the recursion over the
tree calls for every node. So the recursion is written for any treatment
of nodes, and with one that does what the evaluator does and also writes
the counter down it shows every value that the counter takes.

Taking notes changes nothing. The notes are kept beside the state of the
host, where neither the host nor the evaluator looks, and without them the
run is the run of the evaluator: the same outcome, the same state of the
host, the same counter. That a note never says more than the limit is then
a fact about the counter of the evaluator itself. It is carried by two
things that hold of every step, that it begins and that it ends within the
limit.
-/
import Reckoner.Proofs.Evaluation.Recursion

namespace Reckoner

open Evaluator

-- ====================================================== the recursion

/-- What becomes of the step of a node. -/
abbrev Evaluator.Treatment (τ : Type) := (α : Type) → Step τ α → Step τ α

section Recursion

variable {φ τ : Type} [HostFunction φ] (ev : Evaluator φ τ) (node : Treatment τ)

mutual

/-- The value of an expression, where nodes are treated in a given way. -/
def Expr.evalBy : Expr → Step τ (Value φ)
  | .number x => node _ (pure (.number x))
  | .text s => node _ (pure (.text s))
  | .identifier name => node _ (pure ((ev.environment.get? name).getD .undefined))
  | .binary op left right => node _ do
    let x ← left.evalBy
    let y ← right.evalBy
    pure (x.combine op y)
  | .conditional condition whenTrue whenFalse => node _ do
    let x ← condition.evalBy
    if x.isTruthy then whenTrue.evalBy else whenFalse.evalBy
  | .call name arguments => node _ do
    let values ← Expr.evalEachBy arguments
    ev.invoke name values
  | .group statement => node _ (Expr.evalLastBy .undefined statement)

/-- The same for the values of expressions in a row. -/
def Expr.evalEachBy : List Expr → Step τ (List (Value φ))
  | [] => pure []
  | e :: rest => do
    let x ← e.evalBy
    let xs ← Expr.evalEachBy rest
    pure (x :: xs)

/-- The same for the value of the last of them. -/
def Expr.evalLastBy (last : Value φ) : List Expr → Step τ (Value φ)
  | [] => pure last
  | e :: rest => do
    let x ← e.evalBy
    Expr.evalLastBy x rest

end

/-- The value of a program, where nodes are treated in a given way. -/
def Program.evalBy (p : Program) : Step τ (Value φ) :=
  p.statements.foldlM (fun _ s => Expr.evalLastBy ev node .undefined s) .undefined

end Recursion

/-- It is a recursion like the evaluator. -/
def Recursion.treated {φ τ : Type} [HostFunction φ] (ev : Evaluator φ τ) (node : Treatment τ) :
    Recursion φ (State τ) where
  node := fun _ {α} => node α
  lookup name := (ev.environment.get? name).getD .undefined
  invoke := ev.invoke
  expr _ := Expr.evalBy ev node
  each _ := Expr.evalEachBy ev node
  last _ := Expr.evalLastBy ev node
  number _ _ := rfl
  text _ _ := rfl
  identifier _ _ := rfl
  binary _ _ _ _ := rfl
  conditional _ _ _ _ := rfl
  call _ _ _ := rfl
  group _ _ := rfl
  each_nil _ := rfl
  each_cons _ _ _ := rfl
  last_nil _ _ := rfl
  last_cons _ _ _ _ := rfl

-- ============================================================== notes

/-- The same host, beside notes that it does not look at. -/
def Host.beside {φ σ : Type} (host : Host φ σ) : Host φ (σ × List Nat) :=
  ⟨fun f arguments env s =>
    let (outcome, state) := host.call f arguments env s.1
    (outcome, state, s.2)⟩

namespace Evaluator

variable {φ σ α β : Type}

/-- The same evaluator, with room for notes beside the state of its
host. -/
def beside (ev : Evaluator φ σ) : Evaluator φ (σ × List Nat) :=
  ⟨ev.host.beside, ev.environment, ev.limit⟩

/-- Writes the counter down. -/
def State.counted (s : State (σ × List Nat)) : State (σ × List Nat) :=
  { s with host := (s.host.1, s.host.2 ++ [s.depth]) }

/-- The treatment of nodes by the evaluator, with a note of the counter
where the step of a node begins and where the node is done. -/
def counting (ev : Evaluator φ (σ × List Nat)) : Treatment (σ × List Nat) := fun _ step s =>
  let (outcome, s) := ev.nested (fun s => step s.counted) s
  (outcome, s.counted)

/-- Below the limit the step of a node is taken one level further down. -/
theorem nested_of_room {ev : Evaluator φ σ} {step : Step σ α} {depth depth' : Nat}
    {state state' : σ} {outcome : Except EvalError α} (hroom : depth < ev.limit)
    (hstep : step ⟨depth + 1, state⟩ = (outcome, ⟨depth', state'⟩)) :
    ev.nested step ⟨depth, state⟩ = (outcome, ⟨depth' - 1, state'⟩) := by
  unfold nested
  rw [if_neg (Nat.not_le_of_lt hroom), hstep]

theorem counting_eq {ev : Evaluator φ (σ × List Nat)} {step : Step (σ × List Nat) α}
    {s s' : State (σ × List Nat)} {outcome : Except EvalError α}
    (h : ev.nested (fun s => step s.counted) s = (outcome, s')) :
    ev.counting α step s = (outcome, s'.counted) := by
  unfold counting
  rw [h]

/-- The one step does what the other one does, and takes notes that say no
more than the limit. From within the limit it goes within the limit. -/
def Counts (limit : Nat) (step : Step σ α) (step' : Step (σ × List Nat) α) : Prop :=
  ∀ depth state notes, depth ≤ limit → ∃ outcome depth' state' more,
    step ⟨depth, state⟩ = (outcome, ⟨depth', state'⟩) ∧
      step' ⟨depth, state, notes⟩ = (outcome, ⟨depth', state', notes ++ more⟩) ∧
      depth' ≤ limit ∧ ∀ n ∈ more, n ≤ limit

namespace Counts

variable {limit : Nat} {step : Step σ α} {step' : Step (σ × List Nat) α}

theorem pure (a : α) : Counts limit (Pure.pure a : Step σ α) (Pure.pure a) := by
  intro depth state notes hdepth
  refine ⟨.ok a, depth, state, [], rfl, ?_, hdepth, nofun⟩
  rw [List.append_nil]
  rfl

/-- A step behind another one is not taken if the other one fails. -/
theorem bind {next : α → Step σ β} {next' : α → Step (σ × List Nat) β}
    (h : Counts limit step step') (hnext : ∀ a, Counts limit (next a) (next' a)) :
    Counts limit (step >>= next) (step' >>= next') := by
  intro depth state notes hdepth
  obtain ⟨outcome, depth', state', more, hstep, hstep', hdepth', hmore⟩ :=
    h depth state notes hdepth
  rw [step_bind, step_bind, hstep, hstep']
  cases outcome with
  | error e => exact ⟨.error e, depth', state', more, rfl, rfl, hdepth', hmore⟩
  | ok a =>
    obtain ⟨outcome, depth'', state'', more', hrest, hrest', hdepth'', hmore'⟩ :=
      hnext a depth' state' (notes ++ more) hdepth'
    rw [List.append_assoc] at hrest'
    refine ⟨outcome, depth'', state'', more ++ more', hrest, hrest', hdepth'', fun n hn => ?_⟩
    exact (List.mem_append.1 hn).elim (hmore n) (hmore' n)

/-- A node is opened below the limit only, so neither of its two notes
says more. -/
theorem node {ev : Evaluator φ σ} (h : Counts ev.limit step step') :
    Counts ev.limit (ev.nested step) (ev.beside.counting α step') := by
  intro depth state notes hdepth
  by_cases hfull : ev.limit ≤ depth
  · have hrefused : ev.beside.nested (fun s => step' s.counted) ⟨depth, state, notes⟩
        = (.error (.stackOverflow depth ev.limit), ⟨depth, state, notes⟩) := if_pos hfull
    refine ⟨.error (.stackOverflow depth ev.limit), depth, state, [depth], if_pos hfull,
      counting_eq hrefused, hdepth, fun n hn => ?_⟩
    rwa [List.mem_singleton.1 hn]
  · have hroom : depth < ev.limit := Nat.lt_of_not_le hfull
    obtain ⟨outcome, depth', state', more, hstep, hstep', hdepth', hmore⟩ :=
      h (depth + 1) state (notes ++ [depth + 1]) hroom
    have hdone : depth' - 1 ≤ ev.limit := Nat.le_trans (Nat.sub_le depth' 1) hdepth'
    have hopened : ev.beside.nested (fun s => step' s.counted) ⟨depth, state, notes⟩
        = (outcome, ⟨depth' - 1, state', notes ++ [depth + 1] ++ more⟩) :=
      nested_of_room hroom hstep'
    refine ⟨outcome, depth' - 1, state', (depth + 1) :: (more ++ [depth' - 1]),
      nested_of_room hroom hstep, ?_, hdone, fun n hn => ?_⟩
    · rw [counting_eq hopened]
      simp only [State.counted, List.append_assoc, List.cons_append, List.nil_append]
    · rcases List.mem_cons.1 hn with rfl | hn
      · exact hroom
      · rcases List.mem_append.1 hn with hn | hn
        · exact hmore n hn
        · rwa [List.mem_singleton.1 hn]

/-- A call leaves the notes as they are. -/
theorem invoke [HostFunction φ] {ev : Evaluator φ σ} (name : String)
    (arguments : List (Value φ)) :
    Counts ev.limit (ev.invoke name arguments) (ev.beside.invoke name arguments) := by
  intro depth state notes hdepth
  have hcallee : ev.beside.callee name arguments.length = ev.callee name arguments.length := rfl
  unfold Evaluator.invoke
  rw [hcallee]
  cases ev.callee name arguments.length with
  | error refusal =>
    refine ⟨.error (.notCallable name refusal), depth, state, [], rfl, ?_, hdepth, nofun⟩
    rw [List.append_nil]
  | ok f =>
    refine ⟨_, depth, _, [], rfl, ?_, hdepth, nofun⟩
    rw [List.append_nil]
    rfl

end Counts

/-- Taking notes changes nothing, and none of them says more than the
limit. -/
def Counts.lockstep [HostFunction φ] (ev : Evaluator φ σ) :
    Lockstep ev.recursion (Recursion.treated ev.beside ev.beside.counting) where
  Fits _ _ := True
  Holds _ step step' := Counts ev.limit step step'
  parts _ _ := trivial
  pure := .pure
  bind := .bind
  node _ h := h.node
  lookup _ := rfl
  invoke _ := .invoke _

end Evaluator

end Reckoner
