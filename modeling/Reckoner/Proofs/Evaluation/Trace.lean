/-
What a limit cuts off. Evaluation without a limit is followed here from
node to node: it comes to a node at some level, the number of nodes that
are open then, and now and then it makes a call. The list of these events
is the trace of a program. Under a limit the same events happen up to the
first node whose level is beyond it, and there the evaluator overflows.
What the trace has behind that node does not happen, and if there is no
such node the limit does not show.

So an evaluator under a limit is compared with one action, which takes
notes and knows of no limit. The host of the evaluator may keep more than
the host of the action does, as long as it can be seen through; with the
host that writes calls down, the same comparison tells what was called.
That the action means what the program means needs no induction of its
own: no trace is without a limit that all of it is within.
-/
import Reckoner.Proofs.Evaluation.Order
import Reckoner.Proofs.Evaluation.Overflow

namespace Reckoner

open Evaluator

-- =============================================================== events

/-- What evaluation comes to. -/
inductive Event (φ : Type) where
  /-- A node, with the number of nodes that are open, itself among them. -/
  | node (level : Nat)
  /-- A call that the host is asked to make. -/
  | call (made : Call φ)

namespace Event

variable {φ : Type}

/-- Does the limit let it happen? It is for nodes only. -/
def within (limit : Nat) : Event φ → Bool
  | .node level => level ≤ limit
  | .call _ => true

/-- The call, of an event that is one. -/
def call? : Event φ → Option (Call φ)
  | .node _ => none
  | .call made => some made

/-- What is within a limit is within a higher one. -/
theorem within_mono {limit limit' : Nat} (hle : limit ≤ limit') {event : Event φ}
    (h : event.within limit = true) : event.within limit' = true := by
  cases event with
  | node level => exact decide_eq_true (Nat.le_trans (of_decide_eq_true h) hle)
  | call made => rfl

end Event

section Events

variable {φ σ : Type}

/-- The calls among events, in order. -/
def callsIn (events : List (Event φ)) : List (Call φ) := events.filterMap Event.call?

@[simp] theorem callsIn_append (events later : List (Event φ)) :
    callsIn (events ++ later) = callsIn events ++ callsIn later :=
  List.filterMap_append

/-- The state that calls leave a host in. -/
def Host.after (host : Host φ σ) (env : Environment φ) (state : σ) (calls : List (Call φ)) : σ :=
  calls.foldl (fun state call => (host.call call.1 call.2 env state).2) state

@[simp] theorem Host.after_append (host : Host φ σ) (env : Environment φ) (state : σ)
    (calls later : List (Call φ)) :
    host.after env state (calls ++ later) = host.after env (host.after env state calls) later :=
  List.foldl_append

/-- The host that writes calls down has written these down. -/
theorem Host.after_recorded (host : Host φ σ) (env : Environment φ) (state : σ)
    (written calls : List (Call φ)) :
    host.recorded.after env (state, written) calls
      = (host.after env state calls, written ++ calls) := by
  induction calls generalizing state written with
  | nil => exact congrArg (Prod.mk state) (List.append_nil written).symm
  | cons call calls ih =>
    have hrest := ih (host.call call.1 call.2 env state).2 (written ++ [call])
    rw [List.append_assoc] at hrest
    exact hrest

/-- Hosts that can be seen through stay so. -/
theorem Evaluator.Shows.after {τ : Type} {view : τ → σ} {host : Host φ σ} {wide : Host φ τ}
    (h : Shows view wide host) (env : Environment φ) (state : τ) (calls : List (Call φ)) :
    view (wide.after env state calls) = host.after env (view state) calls := by
  induction calls generalizing state with
  | nil => rfl
  | cons call calls ih =>
    have hcall : (host.call call.1 call.2 env (view state)).2
        = view (wide.call call.1 call.2 env state).2 :=
      congrArg Prod.snd (h call.1 call.2 env state)
    have hrest := ih (wide.call call.1 call.2 env state).2
    rw [← hcall] at hrest
    exact hrest

end Events

-- ======================================================= the trace

section Traced

variable {φ σ α : Type}

/-- The same host, with a note of every call. -/
def Host.noted (host : Host φ σ) : Host φ (σ × List (Event φ)) :=
  ⟨fun f arguments env s =>
    let (outcome, state) := host.call f arguments env s.1
    (outcome, state, s.2 ++ [.call (f, arguments)])⟩

/-- What is done at a node, behind a note of the node. -/
def noting (level : Nat) (act : Action (σ × List (Event φ)) α) : Action (σ × List (Event φ)) α :=
  fun s => act (s.1, s.2 ++ [.node level])

variable [HostFunction φ] (host : Host φ σ) (env : Environment φ)

mutual

/-- What an expression means, with notes of what evaluation comes to on
the way; the expression is a node of the given level. -/
def Expr.traced (level : Nat) : Expr → Action (σ × List (Event φ)) (Value φ)
  | .number x => noting level (pure (.number x))
  | .text s => noting level (pure (.text s))
  | .identifier name => noting level (pure ((env.get? name).getD .undefined))
  | .binary op left right => noting level do
    let x ← left.traced (level + 1)
    let y ← right.traced (level + 1)
    pure (x.combine op y)
  | .conditional condition whenTrue whenFalse => noting level do
    let x ← condition.traced (level + 1)
    if x.isTruthy then whenTrue.traced (level + 1) else whenFalse.traced (level + 1)
  | .call name arguments => noting level do
    let values ← Expr.tracedEach (level + 1) arguments
    env.calling host.noted name values
  | .group statement => noting level (Expr.tracedLast (level + 1) .undefined statement)

def Expr.tracedEach (level : Nat) : List Expr → Action (σ × List (Event φ)) (List (Value φ))
  | [] => pure []
  | e :: rest => do
    let x ← e.traced level
    let xs ← Expr.tracedEach level rest
    pure (x :: xs)

def Expr.tracedLast (level : Nat) (last : Value φ) :
    List Expr → Action (σ × List (Event φ)) (Value φ)
  | [] => pure last
  | e :: rest => do
    let x ← e.traced level
    Expr.tracedLast level x rest

end

/-- What a program means, with notes; its expressions are the first level. -/
def Program.traced (p : Program) : Action (σ × List (Event φ)) (Value φ) :=
  p.statements.foldlM (fun _ s => Expr.tracedLast host env 1 .undefined s) Value.undefined

/-- A node is noted one level further than the recursion counts. -/
def Recursion.traced : Recursion φ (σ × List (Event φ)) where
  node := fun level {_} act => noting (level + 1) act
  lookup name := (env.get? name).getD .undefined
  invoke := env.calling host.noted
  expr level := Expr.traced host env (level + 1)
  each level := Expr.tracedEach host env (level + 1)
  last level := Expr.tracedLast host env (level + 1)
  number _ _ := rfl
  text _ _ := rfl
  identifier _ _ := rfl
  binary _ _ _ _ := rfl
  conditional _ _ _ _ := rfl
  call _ _ _ := rfl
  group _ _ := rfl
  each_nil _ := rfl
  each_cons _ _ _ := rfl
  last_nil _ _ := rfl
  last_cons _ _ _ _ := rfl

/-- Everything that evaluation without a limit comes to, in order. -/
def Program.trace (p : Program) (state : σ) : List (Event φ) :=
  (p.traced host env (state, [])).2.2

end Traced

-- ======================================================= under a limit

namespace Evaluator

/-- The events up to the first node that is beyond the limit. -/
def admitted {φ : Type} (limit : Nat) (events : List (Event φ)) : List (Event φ) :=
  events.takeWhile (·.within limit)

/-- The outcome of an evaluation with these events, under the limit. -/
def curbed {φ α : Type} (limit : Nat) (events : List (Event φ)) (outcome : Except EvalError α) :
    Except EvalError α :=
  if events.all (·.within limit) then outcome else .error (.stackOverflow limit limit)

section Admitted

variable {φ α : Type} {limit : Nat} {events later : List (Event φ)}

theorem admitted_append_of_all (h : events.all (·.within limit) = true) :
    admitted limit (events ++ later) = events ++ admitted limit later :=
  List.takeWhile_append_of_pos (List.all_eq_true.1 h)

theorem admitted_of_all (h : events.all (·.within limit) = true) :
    admitted limit events = events := by
  have happend : admitted limit (events ++ []) = events ++ [] := admitted_append_of_all h
  rwa [List.append_nil] at happend

/-- Nothing happens behind a node that is beyond the limit. -/
theorem admitted_append_of_not_all (h : events.all (·.within limit) = false) :
    admitted limit (events ++ later) = admitted limit events := by
  induction events with
  | nil => cases h
  | cons event events ih =>
    unfold admitted at ih ⊢
    rw [List.cons_append, List.takeWhile_cons, List.takeWhile_cons]
    split
    · next hwithin =>
      rw [List.all_cons, hwithin, Bool.true_and] at h
      rw [ih h]
    · rfl

theorem curbed_of_all (h : events.all (·.within limit) = true) (outcome : Except EvalError α) :
    curbed limit events outcome = outcome :=
  if_pos h

theorem curbed_of_not_all (h : events.all (·.within limit) = false)
    (outcome : Except EvalError α) :
    curbed limit events outcome = .error (.stackOverflow limit limit) :=
  if_neg (by rw [h]; decide)

theorem curbed_append_of_all (h : events.all (·.within limit) = true)
    (outcome : Except EvalError α) :
    curbed limit (events ++ later) outcome = curbed limit later outcome := by
  unfold curbed
  rw [List.all_append, h, Bool.true_and]

theorem curbed_append_of_not_all (h : events.all (·.within limit) = false)
    (outcome : Except EvalError α) :
    curbed limit (events ++ later) outcome = .error (.stackOverflow limit limit) := by
  apply curbed_of_not_all
  rw [List.all_append, h, Bool.false_and]

theorem all_within_mono {limit' : Nat} (hle : limit ≤ limit')
    (h : events.all (·.within limit) = true) : events.all (·.within limit') = true := by
  rw [List.all_eq_true] at h ⊢
  intro event hevent
  exact Event.within_mono hle (h event hevent)

/-- Some limit is beyond everything that happens. -/
theorem exists_within (events : List (Event φ)) :
    ∃ limit, events.all (·.within limit) = true := by
  induction events with
  | nil => exact ⟨0, rfl⟩
  | cons event events ih =>
    obtain ⟨limit, hlimit⟩ := ih
    cases event with
    | call made => exact ⟨limit, hlimit⟩
    | node level =>
      refine ⟨max level limit, ?_⟩
      rw [List.all_cons, all_within_mono (Nat.le_max_right level limit) hlimit, Bool.and_true]
      exact decide_eq_true (Nat.le_max_left level limit)

/-- Events are within the limit, or one of them is the first node that is
not. -/
theorem first_beyond (limit : Nat) (events : List (Event φ)) :
    (∀ event ∈ events, event.within limit = true) ∨
      ∃ before level behind, events = before ++ .node level :: behind ∧
        (∀ event ∈ before, event.within limit = true) ∧ limit < level := by
  induction events with
  | nil => exact .inl nofun
  | cons event events ih =>
    obtain hfirst | hfirst := Bool.eq_false_or_eq_true (event.within limit)
    · rcases ih with hwithin | ⟨before, level, behind, rfl, hbefore, hlevel⟩
      · exact .inl (List.forall_mem_cons.2 ⟨hfirst, hwithin⟩)
      · exact .inr ⟨event :: before, level, behind, rfl,
          List.forall_mem_cons.2 ⟨hfirst, hbefore⟩, hlevel⟩
    · cases event with
      | call made => cases hfirst
      | node level =>
        exact .inr ⟨[], level, events, rfl, nofun, Nat.lt_of_not_le (of_decide_eq_false hfirst)⟩

end Admitted

section Tracks

variable {φ σ τ α β : Type} {ev : Evaluator φ τ} {host : Host φ σ} {view : τ → σ} {depth : Nat}

/-- The step follows the action as far as the limit lets it, from a
counter that says `depth`. Past the limit there is no such counter, but
the action is there all the same, since what is cut off is a part of it. -/
def Tracks (ev : Evaluator φ τ) (host : Host φ σ) (view : τ → σ) (depth : Nat) (step : Step τ α)
    (act : Action (σ × List (Event φ)) α) : Prop :=
  ∀ state notes, ∃ outcome events,
    act (view state, notes)
      = (outcome, host.after ev.environment (view state) (callsIn events), notes ++ events) ∧
    (depth ≤ ev.limit → step ⟨depth, state⟩ = (curbed ev.limit events outcome,
      ⟨depth, ev.host.after ev.environment state (callsIn (admitted ev.limit events))⟩))

namespace Tracks

variable {step : Step τ α} {act : Action (σ × List (Event φ)) α}

theorem pure (a : α) : Tracks ev host view depth (pure a) (Pure.pure a) := by
  intro state notes
  refine ⟨.ok a, [], ?_, fun _ => rfl⟩
  rw [List.append_nil]
  rfl

/-- Steps that follow actions follow them one after the other. -/
theorem bind (hview : Shows view ev.host host) {next : α → Step τ β}
    {follow : α → Action (σ × List (Event φ)) β} (h : Tracks ev host view depth step act)
    (hnext : ∀ a, Tracks ev host view depth (next a) (follow a)) :
    Tracks ev host view depth (step >>= next) (act >>= follow) := by
  intro state notes
  obtain ⟨outcome, events, hact, hstep⟩ := h state notes
  rw [step_bind, step_bind, hact]
  cases outcome with
  | error e =>
    refine ⟨.error e, events, rfl, fun hdepth => ?_⟩
    rw [hstep hdepth]
    obtain hall | hall := Bool.eq_false_or_eq_true (events.all (·.within ev.limit))
    · rw [curbed_of_all hall, curbed_of_all hall]
    · rw [curbed_of_not_all hall, curbed_of_not_all hall]
  | ok a =>
    -- the action goes on from here even where the step has overflowed
    have hmid := hview.after ev.environment state (callsIn events)
    obtain ⟨outcome, later, hfollow, hnext⟩ :=
      hnext a (ev.host.after ev.environment state (callsIn events)) (notes ++ events)
    refine ⟨outcome, events ++ later, ?_, fun hdepth => ?_⟩
    · rw [callsIn_append, Host.after_append, ← List.append_assoc, ← hmid]
      exact hfollow
    · rw [hstep hdepth]
      obtain hall | hall := Bool.eq_false_or_eq_true (events.all (·.within ev.limit))
      · rw [curbed_of_all hall, curbed_append_of_all hall, admitted_of_all hall,
          admitted_append_of_all hall, callsIn_append, Host.after_append]
        exact hnext hdepth
      · rw [curbed_of_not_all hall, curbed_append_of_not_all hall,
          admitted_append_of_not_all hall]

/-- A node is noted one level further than the counter says. -/
theorem nested (h : Tracks ev host view (depth + 1) step act) :
    Tracks ev host view depth (ev.nested step) (noting (depth + 1) act) := by
  intro state notes
  obtain ⟨outcome, events, hact, hstep⟩ := h state (notes ++ [.node (depth + 1)])
  refine ⟨outcome, .node (depth + 1) :: events, ?_, fun hdepth => ?_⟩
  · rw [List.append_assoc] at hact
    exact hact
  · unfold Evaluator.nested
    by_cases hfull : ev.limit ≤ depth
    · -- the counter is at the limit, and the node is the first beyond it
      have hbeyond : (Event.node (depth + 1) : Event φ).within ev.limit = false := by
        simp only [Event.within, decide_eq_false_iff_not]
        omega
      have hadmitted : admitted ev.limit (.node (depth + 1) :: events) = [] := by
        rw [admitted, List.takeWhile_cons, hbeyond]
        rfl
      rw [if_pos hfull, hadmitted, curbed_of_not_all (by rw [List.all_cons, hbeyond]; rfl),
        Nat.le_antisymm hdepth hfull]
      rfl
    · have hwithin : [(Event.node (depth + 1) : Event φ)].all (·.within ev.limit) = true := by
        simp only [List.all_cons, List.all_nil, Event.within, Bool.and_true, decide_eq_true_eq]
        omega
      rw [if_neg hfull, ← List.singleton_append, curbed_append_of_all hwithin,
        admitted_append_of_all hwithin]
      dsimp only
      rw [hstep (by omega)]
      rfl

variable [HostFunction φ]

theorem calling (hview : Shows view ev.host host) (name : String) (arguments : List (Value φ)) :
    Tracks ev host view depth (ev.invoke name arguments)
      (ev.environment.calling host.noted name arguments) := by
  intro state notes
  have hcallee : callee ⟨host.noted, ev.environment, 0⟩ name arguments.length
      = ev.callee name arguments.length := rfl
  unfold invoke Environment.calling
  rw [hcallee]
  cases ev.callee name arguments.length with
  | error refusal =>
    refine ⟨.error (.notCallable name refusal), [], ?_, fun _ => rfl⟩
    rw [List.append_nil]
    rfl
  | ok f =>
    refine ⟨(host.call f arguments ev.environment (view state)).1.mapError (.callFailed name),
      [.call (f, arguments)], rfl, fun _ => ?_⟩
    rw [hview f arguments ev.environment state]
    rfl

/-- The evaluator follows the action with the notes. -/
def lockstep (hview : Shows view ev.host host) :
    Lockstep ev.recursion (Recursion.traced host ev.environment) where
  Fits _ _ := True
  Holds depth step act := Tracks ev host view depth step act
  parts _ _ := trivial
  pure := .pure
  bind := .bind hview
  node _ h := h.nested
  lookup _ := rfl
  invoke _ := calling hview _

theorem evalProgram (hview : Shows view ev.host host) (p : Program) :
    Tracks ev host view 0 (ev.evalProgram p) (p.traced host ev.environment) :=
  (lockstep hview).statements .undefined p.statements fun _ _ _ _ => trivial

end Tracks

end Tracks

end Evaluator

-- ============================================================ programs

section Programs

variable {φ σ : Type} [HostFunction φ] (host : Host φ σ) (env : Environment φ) (p : Program)

/-- The action comes to an outcome with the events of the trace, and every
engine does what its limit leaves of that. -/
theorem Program.exists_traced (state : σ) : ∃ outcome,
    p.traced host env (state, [])
      = (outcome, host.after env state (callsIn (p.trace host env state)),
        p.trace host env state) ∧
    ∀ engine : Engine, engine.calls host env p state
        = callsIn (admitted engine.evalLimit (p.trace host env state)) ∧
      engine.run host env p state
        = (curbed engine.evalLimit (p.trace host env state) outcome,
          host.after env state (engine.calls host env p state)) := by
  have hview : Shows Prod.fst host.recorded host := fun _ _ _ _ => rfl
  have htracks (engine : Engine) :
      Tracks ⟨host.recorded, env, engine.evalLimit⟩ host Prod.fst 0 _ _ := .evalProgram hview p
  obtain ⟨outcome, events, hact, -⟩ := htracks default (state, []) []
  have htrace : p.trace host env state = events := congrArg (·.2.2) hact
  refine ⟨outcome, by rw [htrace]; exact hact, fun engine => ?_⟩
  obtain ⟨outcome', events', hact', hstep⟩ := htracks engine (state, []) []
  -- the action knows of no engine, so it came to the same both times
  have hsame := hact'.symm.trans hact
  obtain rfl : outcome' = outcome := congrArg Prod.fst hsame
  obtain rfl : events' = events := congrArg (·.2.2) hsame
  have hrun : engine.run host.recorded env p (state, []) = _ :=
    congrArg (fun result => (result.1, result.2.host)) (hstep (Nat.zero_le _))
  dsimp only at hrun
  rw [Host.after_recorded, List.nil_append] at hrun
  have hcalls : engine.calls host env p state = callsIn (admitted engine.evalLimit events') :=
    congrArg (·.2.2) hrun
  rw [htrace]
  refine ⟨hcalls, ?_⟩
  rw [Engine.run_recorded engine host env p state [], hrun, hcalls]

/-- The action does what the program means, and its notes are the trace. -/
theorem Program.traced_eq (state : σ) :
    p.traced host env (state, [])
      = ((p.meaning host env state).1, (p.meaning host env state).2, p.trace host env state) := by
  obtain ⟨outcome, htraced, hruns⟩ := p.exists_traced host env state
  obtain ⟨limit, hwithin⟩ := exists_within (p.trace host env state)
  -- an engine under a limit that is not reached does both
  obtain ⟨hcalls, hrun⟩ := hruns ⟨0, max p.height limit⟩
  have hall := all_within_mono (Nat.le_max_right p.height limit) hwithin
  rw [Engine.run_of_height_le (Nat.le_max_left p.height limit), hcalls, curbed_of_all hall,
    admitted_of_all hall] at hrun
  rw [htraced, hrun]

variable {host env p} {engine : Engine} {state : σ}

/-- A limit that nothing is beyond does not show. -/
theorem Engine.run_of_within
    (hwithin : ∀ event ∈ p.trace host env state, event.within engine.evalLimit = true) :
    engine.run host env p state = p.meaning host env state ∧
      engine.calls host env p state = callsIn (p.trace host env state) := by
  obtain ⟨outcome, htraced, hruns⟩ := p.exists_traced host env state
  obtain ⟨hcalls, hrun⟩ := hruns engine
  have hall := List.all_eq_true.2 hwithin
  rw [admitted_of_all hall] at hcalls
  rw [hcalls, curbed_of_all hall] at hrun
  rw [p.traced_eq] at htraced
  refine ⟨hrun.trans ?_, hcalls⟩
  exact congrArg (fun r => (r.1, r.2.1)) htraced.symm

/-- At the first node that is beyond the limit, the engine overflows. -/
theorem Engine.run_of_beyond {before behind : List (Event φ)} {level : Nat}
    (htrace : p.trace host env state = before ++ .node level :: behind)
    (hbefore : ∀ event ∈ before, event.within engine.evalLimit = true)
    (hlevel : engine.evalLimit < level) :
    engine.run host env p state = (.error (.stackOverflow engine.evalLimit engine.evalLimit),
        host.after env state (callsIn before)) ∧
      engine.calls host env p state = callsIn before := by
  obtain ⟨outcome, -, hruns⟩ := p.exists_traced host env state
  obtain ⟨hcalls, hrun⟩ := hruns engine
  have hall := List.all_eq_true.2 hbefore
  have hnode : (Event.node level : Event φ).within engine.evalLimit = false :=
    decide_eq_false (Nat.not_le_of_lt hlevel)
  have hadmitted : admitted engine.evalLimit (.node level :: behind) = [] := by
    rw [admitted, List.takeWhile_cons, hnode]
    rfl
  rw [htrace, admitted_append_of_all hall, hadmitted, List.append_nil] at hcalls
  rw [hcalls, htrace, curbed_append_of_all hall,
    curbed_of_not_all (by rw [List.all_cons, hnode]; rfl)] at hrun
  exact ⟨hrun, hcalls⟩

end Programs

/-- Evaluation under a limit is evaluation without one, up to the first
node that is beyond the limit. If there is none, the outcome, the calls
and the state of the host are those of evaluation without a limit; else
the engine overflows there, with the calls made that come before the node.
A higher limit changes nothing then but overflows, and there is no overflow
under a limit that the tree does not reach. -/
theorem Engine.run_traces {φ σ : Type} [HostFunction φ] (engine : Engine) (host : Host φ σ)
    (env : Environment φ) (p : Program) (state : σ) :
    p.traced host env (state, [])
        = ((p.meaning host env state).1, (p.meaning host env state).2, p.trace host env state) ∧
      (((∀ event ∈ p.trace host env state, event.within engine.evalLimit = true) ∧
          engine.run host env p state = p.meaning host env state ∧
          engine.calls host env p state = callsIn (p.trace host env state)) ∨
        ∃ before level behind, p.trace host env state = before ++ .node level :: behind ∧
          (∀ event ∈ before, event.within engine.evalLimit = true) ∧ engine.evalLimit < level ∧
          engine.run host env p state
            = (.error (.stackOverflow engine.evalLimit engine.evalLimit),
              host.after env state (callsIn before)) ∧
          engine.calls host env p state = callsIn before) ∧
      (∀ engine' : Engine, engine.evalLimit ≤ engine'.evalLimit →
        (∀ depth limit, (engine.run host env p state).1 ≠ .error (.stackOverflow depth limit)) →
        engine'.run host env p state = engine.run host env p state ∧
          engine'.calls host env p state = engine.calls host env p state) ∧
      (p.height ≤ engine.evalLimit → ∀ depth limit,
        (engine.run host env p state).1 ≠ .error (.stackOverflow depth limit)) := by
  have hcases := first_beyond engine.evalLimit (p.trace host env state)
  refine ⟨p.traced_eq host env state, ?_, ?_, ?_⟩
  · rcases hcases with hwithin | ⟨before, level, behind, htrace, hbefore, hlevel⟩
    · exact .inl ⟨hwithin, run_of_within hwithin⟩
    · exact .inr ⟨before, level, behind, htrace, hbefore, hlevel,
        run_of_beyond htrace hbefore hlevel⟩
  · intro engine' hle hrun
    rcases hcases with hwithin | ⟨before, level, behind, htrace, hbefore, hlevel⟩
    · have hwithin' (event) (hevent : event ∈ p.trace host env state) :=
        Event.within_mono hle (hwithin event hevent)
      obtain ⟨hmeaning, hcalls⟩ := run_of_within hwithin
      obtain ⟨hmeaning', hcalls'⟩ := run_of_within hwithin'
      exact ⟨hmeaning'.trans hmeaning.symm, hcalls'.trans hcalls.symm⟩
    · have hoverflow := (run_of_beyond htrace hbefore hlevel).1
      exact absurd (congrArg Prod.fst hoverflow) (hrun _ _)
  · intro hheight depth limit
    rw [run_of_height_le hheight]
    exact Unbounded.program host env p state depth limit

/-- The statement `count(), 1 + count(1);`. -/
def deepeningProgram : Program :=
  ⟨[[.call "count" [], .binary .add (.number .one) (.call "count" [.number .one])]]⟩

/-- The argument of the second call is the third level: with two of them
the first call is made and the second is not. -/
theorem Engine.run_traces_deepening :
    ((Engine.mk 0 2).run (Builtin.host 1) countingNames deepeningProgram .empty).1
        = .error (.stackOverflow 2 2) ∧
      ((Engine.mk 0 2).calls (Builtin.host 1) countingNames deepeningProgram .empty).length = 1 ∧
      (Engine.mk 0 3).run (Builtin.host 1) countingNames deepeningProgram .empty
        = deepeningProgram.meaning (Builtin.host 1) countingNames .empty ∧
      (Engine.mk 0 4).run (Builtin.host 1) countingNames deepeningProgram .empty
        = (Engine.mk 0 3).run (Builtin.host 1) countingNames deepeningProgram .empty := by
  have hcalls : ((Engine.mk 0 2).calls (Builtin.host 1) countingNames deepeningProgram
      .empty).length = 1 := by decide +kernel
  obtain ⟨-, hlow, -, -⟩ :=
    Engine.run_traces ⟨0, 2⟩ (Builtin.host 1) countingNames deepeningProgram .empty
  obtain ⟨-, henough, hstable, hnever⟩ :=
    Engine.run_traces ⟨0, 3⟩ (Builtin.host 1) countingNames deepeningProgram .empty
  have hheight : deepeningProgram.height ≤ (Engine.mk 0 3).evalLimit := by decide
  refine ⟨?_, hcalls, ?_, (hstable ⟨0, 4⟩ (by decide) (hnever hheight)).1⟩
  · rcases hlow with ⟨hwithin, -⟩ | ⟨_, _, _, -, -, -, hrun, -⟩
    · exact absurd (List.all_eq_true.2 hwithin) (by decide +kernel)
    · exact congrArg Prod.fst hrun
  · rcases henough with ⟨-, hrun, -⟩ | ⟨_, _, _, -, -, -, hrun, -⟩
    · exact hrun
    · exact absurd (congrArg Prod.fst hrun) (hnever hheight 3 3)

end Reckoner
