/-
The walk over a program, as rules. What a program does with its host is
written down here without a host: which calls it makes, in which order,
and what becomes of it, given the answers. A rule says what the parts of
a node contribute and in which order they come, and that nothing comes
behind a part that fails. The answers are whatever stands in the record
of the calls; a host bears a record out if it gives these answers, one
after another, from the state that it is in.

The evaluator does what the rules say. The rules leave some record that
the host bears out for every program, whatever its limit and its state;
and whenever there is such a record, evaluation goes by it. So the first
is proved along the program, the second along the rules, and there is no
need to follow the evaluator through its cases.
-/
import Reckoner.Proofs.Evaluation.Calls

namespace Reckoner

-- ============================================================== records

/-- A call that was made by a name, with what it was answered. -/
structure Exchange (φ : Type) where
  name : String
  function : φ
  arguments : List (Value φ)
  answer : Except CallError (Value φ)

/-- The call as the host sees it. -/
def Exchange.call {φ : Type} (x : Exchange φ) : Call φ := (x.function, x.arguments)

/-- Is this what the host answers, call by call, from the one state to the
other? -/
def Replays {φ σ : Type} (host : Host φ σ) (env : Environment φ) :
    σ → List (Exchange φ) → σ → Prop
  | state, [], state' => state = state'
  | state, x :: made, state' => ∃ mid,
      host.call x.function x.arguments env state = (x.answer, mid) ∧
        Replays host env mid made state'

section Replays

variable {φ σ : Type} {host : Host φ σ} {env : Environment φ} {made made' : List (Exchange φ)}

/-- Calls are replayed one after the other. -/
theorem replays_append_iff {state state' : σ} : Replays host env state (made ++ made') state' ↔
    ∃ mid, Replays host env state made mid ∧ Replays host env mid made' state' := by
  induction made generalizing state with
  | nil => exact ⟨fun h => ⟨state, rfl, h⟩, fun ⟨_, rfl, h⟩ => h⟩
  | cons x made ih =>
    constructor
    · rintro ⟨mid, hcall, hrest⟩
      obtain ⟨after, hmade, hmade'⟩ := ih.1 hrest
      exact ⟨after, ⟨mid, hcall, hmade⟩, hmade'⟩
    · rintro ⟨after, ⟨mid, hcall, hmade⟩, hmade'⟩
      exact ⟨mid, hcall, ih.2 ⟨after, hmade, hmade'⟩⟩

/-- The host that writes calls down writes down these. -/
theorem Replays.recorded {state state' : σ} (h : Replays host env state made state')
    (calls : List (Call φ)) :
    Replays host.recorded env (state, calls) made (state', calls ++ made.map Exchange.call) := by
  induction made generalizing state calls with
  | nil =>
    obtain rfl : state = state' := h
    show (state, calls) = (state, calls ++ [])
    rw [List.append_nil]
  | cons x made ih =>
    obtain ⟨mid, hcall, hrest⟩ := h
    refine ⟨(mid, calls ++ [x.call]), ?_, ?_⟩
    · show ((host.call x.function x.arguments env state).1,
        ((host.call x.function x.arguments env state).2, calls ++ [x.call])) = _
      rw [hcall]
    · have hrecorded := ih hrest (calls ++ [x.call])
      rwa [List.append_assoc] at hrecorded

end Replays

-- ================================================================ rules

variable {φ : Type} [HostFunction φ]

/-- Why a name is not called with so many arguments. -/
inductive Environment.Refuses (env : Environment φ) (name : String) (count : Nat) : Refusal → Prop
  | unbound (missing : env.get? name = none) : Refuses env name count .unbound
  | notAFunction {value : Value φ} (bound : env.get? name = some value)
      (other : value.function? = none) : Refuses env name count (.notAFunction value.typeName)
  | arityRejected {f : φ} (bound : env.get? name = some (.function f))
      (rejects : HostFunction.accepts f count = false) :
      Refuses env name count (.arityRejected count)

mutual

/-- With so many nodes open around it, an expression makes these calls,
and this becomes of it: it is refused at the limit, and opened below. -/
inductive Expr.Walk (env : Environment φ) (limit : Nat) : (depth : Nat) → Expr →
    (made : List (Exchange φ)) → (outcome : Except EvalError (Value φ)) → Prop
  | tooDeep {depth : Nat} {e : Expr} (full : limit ≤ depth) :
      Expr.Walk env limit depth e [] (.error (.stackOverflow depth limit))
  | opened {depth : Nat} {e : Expr} {made : List (Exchange φ)}
      {outcome : Except EvalError (Value φ)} (room : depth < limit)
      (inside : Expr.Inside env limit (depth + 1) e made outcome) :
      Expr.Walk env limit depth e made outcome

/-- The same for an expression that has been opened and is one of the
nodes itself. -/
inductive Expr.Inside (env : Environment φ) (limit : Nat) : (depth : Nat) → Expr →
    (made : List (Exchange φ)) → (outcome : Except EvalError (Value φ)) → Prop
  | number {depth : Nat} (x : Binary64) :
      Expr.Inside env limit depth (.number x) [] (.ok (.number x))
  | text {depth : Nat} (s : String) : Expr.Inside env limit depth (.text s) [] (.ok (.text s))
  | identifier {depth : Nat} (name : String) :
      Expr.Inside env limit depth (.identifier name) [] (.ok ((env.get? name).getD .undefined))
  | leftFails {depth : Nat} {op : Operator} {left right : Expr} {made : List (Exchange φ)}
      {e : EvalError} (hleft : Expr.Walk env limit depth left made (.error e)) :
      Expr.Inside env limit depth (.binary op left right) made (.error e)
  | binary {depth : Nat} {op : Operator} {left right : Expr} {made made' : List (Exchange φ)}
      {x : Value φ} {outcome : Except EvalError (Value φ)}
      (hleft : Expr.Walk env limit depth left made (.ok x))
      (hright : Expr.Walk env limit depth right made' outcome) :
      Expr.Inside env limit depth (.binary op left right) (made ++ made')
        (outcome.map (x.combine op))
  | conditionFails {depth : Nat} {condition whenTrue whenFalse : Expr} {made : List (Exchange φ)}
      {e : EvalError} (hcondition : Expr.Walk env limit depth condition made (.error e)) :
      Expr.Inside env limit depth (.conditional condition whenTrue whenFalse) made (.error e)
  | conditional {depth : Nat} {condition whenTrue whenFalse : Expr}
      {made made' : List (Exchange φ)} {x : Value φ} {outcome : Except EvalError (Value φ)}
      (hcondition : Expr.Walk env limit depth condition made (.ok x))
      (hchosen : Expr.Walk env limit depth (if x.isTruthy = true then whenTrue else whenFalse) made'
        outcome) :
      Expr.Inside env limit depth (.conditional condition whenTrue whenFalse) (made ++ made')
        outcome
  | argumentFails {depth : Nat} {name : String} {arguments : List Expr} {made : List (Exchange φ)}
      {e : EvalError} (harguments : Expr.WalkRow env limit depth arguments made (.error e)) :
      Expr.Inside env limit depth (.call name arguments) made (.error e)
  | refused {depth : Nat} {name : String} {arguments : List Expr} {made : List (Exchange φ)}
      {values : List (Value φ)} {refusal : Refusal}
      (harguments : Expr.WalkRow env limit depth arguments made (.ok values))
      (refuses : env.Refuses name values.length refusal) :
      Expr.Inside env limit depth (.call name arguments) made
        (.error (.notCallable name refusal))
  | call {depth : Nat} {name : String} {arguments : List Expr} {made : List (Exchange φ)}
      {values : List (Value φ)} {f : φ} {answer : Except CallError (Value φ)}
      (harguments : Expr.WalkRow env limit depth arguments made (.ok values))
      (bound : env.get? name = some (.function f))
      (accepts : HostFunction.accepts f values.length = true) :
      Expr.Inside env limit depth (.call name arguments) (made ++ [⟨name, f, values, answer⟩])
        (answer.mapError (.callFailed name))
  | group {depth : Nat} {statement : List Expr} {made : List (Exchange φ)}
      {outcome : Except EvalError (List (Value φ))}
      (hstatement : Expr.WalkRow env limit depth statement made outcome) :
      Expr.Inside env limit depth (.group statement) made (outcome.map (·.getLastD .undefined))

/-- Expressions in a row make these calls, and yield their values or
fail. -/
inductive Expr.WalkRow (env : Environment φ) (limit : Nat) : (depth : Nat) → List Expr →
    (made : List (Exchange φ)) → (outcome : Except EvalError (List (Value φ))) → Prop
  | nil {depth : Nat} : Expr.WalkRow env limit depth [] [] (.ok [])
  | fails {depth : Nat} {first : Expr} {rest : List Expr} {made : List (Exchange φ)}
      {e : EvalError} (hfirst : Expr.Walk env limit depth first made (.error e)) :
      Expr.WalkRow env limit depth (first :: rest) made (.error e)
  | cons {depth : Nat} {first : Expr} {rest : List Expr} {made made' : List (Exchange φ)}
      {x : Value φ} {outcome : Except EvalError (List (Value φ))}
      (hfirst : Expr.Walk env limit depth first made (.ok x))
      (hrest : Expr.WalkRow env limit depth rest made' outcome) :
      Expr.WalkRow env limit depth (first :: rest) (made ++ made') (outcome.map (x :: ·))

end

/-- Statements make these calls one after another, and yield the values of
their last expressions or fail. -/
inductive Program.WalkStatements (env : Environment φ) (limit : Nat) : List Statement →
    (made : List (Exchange φ)) → (outcome : Except EvalError (List (Value φ))) → Prop
  | nil : Program.WalkStatements env limit [] [] (.ok [])
  | fails {s : Statement} {rest : List Statement} {made : List (Exchange φ)} {e : EvalError}
      (hfirst : Expr.WalkRow env limit 0 s made (.error e)) :
      Program.WalkStatements env limit (s :: rest) made (.error e)
  | cons {s : Statement} {rest : List Statement} {made made' : List (Exchange φ)}
      {values : List (Value φ)} {outcome : Except EvalError (List (Value φ))}
      (hfirst : Expr.WalkRow env limit 0 s made (.ok values))
      (hrest : Program.WalkStatements env limit rest made' outcome) :
      Program.WalkStatements env limit (s :: rest) (made ++ made')
        (outcome.map (values.getLastD .undefined :: ·))

/-- A program makes these calls, and yields the value of its last statement
or fails. -/
inductive Program.Walk (env : Environment φ) (limit : Nat) (p : Program)
    (made : List (Exchange φ)) : (outcome : Except EvalError (Value φ)) → Prop
  | statements {outcome : Except EvalError (List (Value φ))}
      (hstatements : Program.WalkStatements env limit p.statements made outcome) :
      Program.Walk env limit p made (outcome.map (·.getLastD .undefined))

-- ============================================== which rule it must have been

section Inversion

variable {env : Environment φ} {limit depth : Nat} {made : List (Exchange φ)}
  {outcome : Except EvalError (Value φ)}

/-- A walk of an expression is a refusal at the limit, or goes inside one
level deeper. -/
theorem Expr.Walk.inv {e : Expr} (h : e.Walk env limit depth made outcome) :
    (limit ≤ depth ∧ made = [] ∧ outcome = .error (.stackOverflow depth limit)) ∨
      (depth < limit ∧ e.Inside env limit (depth + 1) made outcome) := by
  cases h with
  | tooDeep full => exact .inl ⟨full, rfl, rfl⟩
  | opened room inside => exact .inr ⟨room, inside⟩

theorem Expr.Inside.binary_inv {op : Operator} {left right : Expr}
    (h : Expr.Inside env limit depth (.binary op left right) made outcome) :
    (∃ e, outcome = .error e ∧ left.Walk env limit depth made (.error e)) ∨
      ∃ before behind x result, made = before ++ behind ∧ outcome = result.map (x.combine op) ∧
        left.Walk env limit depth before (.ok x) ∧ right.Walk env limit depth behind result := by
  cases h with
  | leftFails hleft => exact .inl ⟨_, rfl, hleft⟩
  | binary hleft hright => exact .inr ⟨_, _, _, _, rfl, rfl, hleft, hright⟩

theorem Expr.Inside.conditional_inv {condition whenTrue whenFalse : Expr}
    (h : Expr.Inside env limit depth (.conditional condition whenTrue whenFalse) made outcome) :
    (∃ e, outcome = .error e ∧ condition.Walk env limit depth made (.error e)) ∨
      ∃ before behind x, made = before ++ behind ∧ condition.Walk env limit depth before (.ok x) ∧
        (x.isTruthy = true ∧ whenTrue.Walk env limit depth behind outcome ∨
          x.isTruthy = false ∧ whenFalse.Walk env limit depth behind outcome) := by
  cases h with
  | conditionFails hcondition => exact .inl ⟨_, rfl, hcondition⟩
  | conditional hcondition hchosen =>
    refine .inr ⟨_, _, _, rfl, hcondition, ?_⟩
    split at hchosen
    · next htruthy => exact .inl ⟨htruthy, hchosen⟩
    · next htruthy => exact .inr ⟨Bool.eq_false_iff.2 htruthy, hchosen⟩

theorem Expr.Inside.call_inv {name : String} {arguments : List Expr}
    (h : Expr.Inside env limit depth (.call name arguments) made outcome) :
    (∃ e, outcome = .error e ∧ Expr.WalkRow env limit depth arguments made (.error e)) ∨
      (∃ values refusal, outcome = .error (.notCallable name refusal) ∧
        Expr.WalkRow env limit depth arguments made (.ok values) ∧
        env.Refuses name values.length refusal) ∨
      ∃ before f values answer, made = before ++ [⟨name, f, values, answer⟩] ∧
        outcome = answer.mapError (.callFailed name) ∧
        Expr.WalkRow env limit depth arguments before (.ok values) ∧
        env.get? name = some (.function f) ∧ HostFunction.accepts f values.length = true := by
  cases h with
  | argumentFails harguments => exact .inl ⟨_, rfl, harguments⟩
  | refused harguments refuses => exact .inr (.inl ⟨_, _, rfl, harguments, refuses⟩)
  | call harguments bound accepts =>
    exact .inr (.inr ⟨_, _, _, _, rfl, rfl, harguments, bound, accepts⟩)

theorem Expr.Inside.group_inv {statement : List Expr}
    (h : Expr.Inside env limit depth (.group statement) made outcome) :
    ∃ result, outcome = result.map (·.getLastD .undefined) ∧
      Expr.WalkRow env limit depth statement made result := by
  cases h with
  | group hstatement => exact ⟨_, rfl, hstatement⟩

theorem Expr.WalkRow.cons_inv {first : Expr} {rest : List Expr}
    {outcome : Except EvalError (List (Value φ))}
    (h : Expr.WalkRow env limit depth (first :: rest) made outcome) :
    (∃ e, outcome = .error e ∧ first.Walk env limit depth made (.error e)) ∨
      ∃ before behind x result, made = before ++ behind ∧ outcome = result.map (x :: ·) ∧
        first.Walk env limit depth before (.ok x) ∧
        Expr.WalkRow env limit depth rest behind result := by
  cases h with
  | fails hfirst => exact .inl ⟨_, rfl, hfirst⟩
  | cons hfirst hrest => exact .inr ⟨_, _, _, _, rfl, rfl, hfirst, hrest⟩

end Inversion

-- ================================================ evaluation by a record

namespace Evaluator

variable {σ : Type} {ev : Evaluator φ σ} {name : String}

/-- A name that refuses a call has no callee for it. -/
theorem callee_of_refuses {count : Nat} {refusal : Refusal}
    (h : ev.environment.Refuses name count refusal) : ev.callee name count = .error refusal := by
  unfold callee
  cases h with
  | unbound missing => rw [missing]
  | notAFunction bound other =>
    rw [bound]
    next value => cases value <;> first | rfl | cases other
  | arityRejected bound rejects =>
    rw [bound]
    exact if_neg (by rw [rejects]; decide)

/-- A name that accepts a call has the function for a callee. -/
theorem callee_of_accepts {count : Nat} {f : φ}
    (bound : ev.environment.get? name = some (.function f))
    (accepts : HostFunction.accepts f count = true) : ev.callee name count = .ok f := by
  unfold callee
  rw [bound]
  exact if_pos accepts

/-- The value of a row is the last of its values. -/
theorem evalLast_eq (ev : Evaluator φ σ) (last : Value φ) (row : List Expr) :
    ev.evalLast last row = (ev.evalEach row >>= fun xs => pure (xs.getLastD last)) := by
  induction row generalizing last with
  | nil => rfl
  | cons e rest ih =>
    rw [evalLast, evalEach, bind_assoc]
    refine bind_congr fun x => ?_
    rw [ih, bind_assoc]
    refine bind_congr fun xs => ?_
    rw [pure_bind, List.getLastD_cons]

/-- From here to there the step comes to this outcome, and leaves the
counter as it was. -/
def Runs {σ α : Type} (step : Step σ α) (depth : Nat) (state : σ) (outcome : Except EvalError α)
    (state' : σ) : Prop :=
  step ⟨depth, state⟩ = (outcome, ⟨depth, state'⟩)

namespace Runs

variable {α β : Type} {depth : Nat} {state mid state' : σ} {step : Step σ α}

section Steps

omit [HostFunction φ]

/-- A step that fails is followed by none. -/
theorem fail {e : EvalError} (h : Runs step depth state (.error e) state')
    (next : α → Step σ β) : Runs (step >>= next) depth state (.error e) state' := by
  unfold Runs at h ⊢
  rw [step_bind, h]

/-- A step that succeeds is followed by the next. -/
theorem bind {a : α} {next : α → Step σ β} {outcome : Except EvalError β}
    (h : Runs step depth state (.ok a) mid) (hnext : Runs (next a) depth mid outcome state') :
    Runs (step >>= next) depth state outcome state' := by
  unfold Runs at h hnext ⊢
  rw [step_bind, h]
  exact hnext

theorem map {outcome : Except EvalError α} (h : Runs step depth state outcome state') (f : α → β) :
    Runs (step >>= fun a => pure (f a)) depth state (outcome.map f) state' := by
  cases outcome with
  | error e => exact h.fail _
  | ok a => exact h.bind rfl

/-- A step a level deeper, while there is room. -/
theorem nested {outcome : Except EvalError α} (room : depth < ev.limit)
    (h : Runs step (depth + 1) state outcome state') :
    Runs (ev.nested step) depth state outcome state' := by
  unfold Runs at h ⊢
  unfold Evaluator.nested
  rw [if_neg (Nat.not_le.2 room), h]
  rfl

/-- At the limit nothing is run a level deeper. -/
theorem full (full : ev.limit ≤ depth) (step : Step σ α) :
    Runs (ev.nested step) depth state (.error (.stackOverflow depth ev.limit)) state := by
  unfold Runs Evaluator.nested
  rw [if_pos full]

end Steps

theorem refused {values : List (Value φ)} {refusal : Refusal}
    (h : ev.environment.Refuses name values.length refusal) :
    Runs (ev.invoke name values) depth state (.error (.notCallable name refusal)) state := by
  unfold Runs invoke
  rw [callee_of_refuses h]

theorem answered {values : List (Value φ)} {f : φ} {answer : Except CallError (Value φ)}
    (bound : ev.environment.get? name = some (.function f))
    (accepts : HostFunction.accepts f values.length = true)
    (hcall : ev.host.call f values ev.environment state = (answer, state')) :
    Runs (ev.invoke name values) depth state (answer.mapError (.callFailed name)) state' := by
  unfold Runs invoke
  rw [callee_of_accepts bound accepts]
  show ((ev.host.call f values ev.environment state).1.mapError _,
    (⟨depth, (ev.host.call f values ev.environment state).2⟩ : State σ)) = _
  rw [hcall]

/-- Where the values of a row are found, so is the last of them. -/
theorem getLast {row : List Expr} {outcome : Except EvalError (List (Value φ))}
    (h : Runs (ev.evalEach row) depth state outcome state') (last : Value φ) :
    Runs (ev.evalLast last row) depth state (outcome.map (·.getLastD last)) state' := by
  rw [evalLast_eq]
  exact h.map _

end Runs

end Evaluator

open Evaluator

/-- The last of some values is the last behind another one. -/
theorem Except.map_getLastD_cons {ε α : Type} (outcome : Except ε (List α)) (a last : α) :
    (outcome.map (a :: ·)).map (·.getLastD last) = outcome.map (·.getLastD a) := by
  cases outcome with
  | error e => rfl
  | ok as => exact congrArg Except.ok (List.getLastD_cons ..)

mutual

/-- Where the host bears the record out, evaluation goes by it. -/
theorem Expr.Walk.runs {σ : Type} {host : Host φ σ} {env : Environment φ} {limit depth : Nat}
    {e : Expr} {made : List (Exchange φ)} {outcome : Except EvalError (Value φ)} {state state' : σ}
    (h : e.Walk env limit depth made outcome) (hreplay : Replays host env state made state') :
    Runs (evalExpr ⟨host, env, limit⟩ e) depth state outcome state' := by
  -- by the expression, and not by the rule: where the rule puts two
  -- records together, the host passes through a state between them
  rcases h.inv with ⟨full, rfl, rfl⟩ | ⟨room, inside⟩
  · obtain rfl : state = state' := hreplay
    cases e <;> exact .full full _
  cases e with
  | number x =>
    cases inside
    obtain rfl : state = state' := hreplay
    exact .nested room rfl
  | text s =>
    cases inside
    obtain rfl : state = state' := hreplay
    exact .nested room rfl
  | identifier name =>
    cases inside
    obtain rfl : state = state' := hreplay
    exact .nested room rfl
  | binary op left right =>
    rcases inside.binary_inv with ⟨e, rfl, hleft⟩ | ⟨before, behind, x, _, rfl, rfl, hleft, hright⟩
    · exact .nested room ((hleft.runs hreplay).fail _)
    · obtain ⟨mid, hbefore, hbehind⟩ := replays_append_iff.1 hreplay
      exact .nested room ((hleft.runs hbefore).bind ((hright.runs hbehind).map _))
  | conditional condition whenTrue whenFalse =>
    rcases inside.conditional_inv with
      ⟨e, rfl, hcondition⟩ | ⟨before, behind, x, rfl, hcondition, hchosen⟩
    · exact .nested room ((hcondition.runs hreplay).fail _)
    · obtain ⟨mid, hbefore, hbehind⟩ := replays_append_iff.1 hreplay
      refine .nested room ((hcondition.runs hbefore).bind ?_)
      rcases hchosen with ⟨htruthy, harm⟩ | ⟨htruthy, harm⟩
      · rw [htruthy]
        exact harm.runs hbehind
      · rw [htruthy]
        exact harm.runs hbehind
  | call name arguments =>
    rcases inside.call_inv with ⟨e, rfl, harguments⟩ |
      ⟨values, refusal, rfl, harguments, hrefuses⟩ |
      ⟨before, f, values, answer, rfl, rfl, harguments, bound, accepts⟩
    · exact .nested room ((harguments.runs hreplay).fail _)
    · exact .nested room ((harguments.runs hreplay).bind (.refused hrefuses))
    · obtain ⟨mid, hbefore, _, hcall, rfl⟩ := replays_append_iff.1 hreplay
      exact .nested room ((harguments.runs hbefore).bind (.answered bound accepts hcall))
  | group statement =>
    obtain ⟨result, rfl, hstatement⟩ := inside.group_inv
    exact .nested room ((hstatement.runs hreplay).getLast .undefined)

theorem Expr.WalkRow.runs {σ : Type} {host : Host φ σ} {env : Environment φ} {limit depth : Nat}
    {row : List Expr} {made : List (Exchange φ)} {outcome : Except EvalError (List (Value φ))}
    {state state' : σ} (h : Expr.WalkRow env limit depth row made outcome)
    (hreplay : Replays host env state made state') :
    Runs (evalEach ⟨host, env, limit⟩ row) depth state outcome state' := by
  cases row with
  | nil =>
    cases h
    obtain rfl : state = state' := hreplay
    exact rfl
  | cons first rest =>
    rcases h.cons_inv with ⟨e, rfl, hfirst⟩ | ⟨before, behind, x, _, rfl, rfl, hfirst, hrest⟩
    · exact (hfirst.runs hreplay).fail _
    · obtain ⟨mid, hbefore, hbehind⟩ := replays_append_iff.1 hreplay
      exact (hfirst.runs hbefore).bind ((hrest.runs hbehind).map _)

end

theorem Program.WalkStatements.runs {σ : Type} {host : Host φ σ} {env : Environment φ} {limit : Nat}
    {ss : List Statement} {made : List (Exchange φ)}
    {outcome : Except EvalError (List (Value φ))} {state state' : σ}
    (h : Program.WalkStatements env limit ss made outcome) (start : Value φ)
    (hreplay : Replays host env state made state') :
    Runs (ss.foldlM (fun _ s => evalStatement ⟨host, env, limit⟩ s) start) 0 state
      (outcome.map (·.getLastD start)) state' := by
  induction h generalizing state start with
  | nil =>
    obtain rfl : state = state' := hreplay
    exact rfl
  | fails hfirst =>
    rw [List.foldlM_cons]
    exact ((hfirst.runs hreplay).getLast .undefined).fail _
  | cons hfirst hrest ih =>
    obtain ⟨mid, hmade, hmade'⟩ := replays_append_iff.1 hreplay
    rw [List.foldlM_cons, Except.map_getLastD_cons]
    exact ((hfirst.runs hmade).getLast .undefined).bind (ih _ hmade')

/-- Where the host bears the record out, the engine goes by it, and the
calls in the record are those it makes. -/
theorem Program.Walk.runs {σ : Type} {host : Host φ σ} {env : Environment φ} {engine : Engine}
    {p : Program} {made : List (Exchange φ)} {outcome : Except EvalError (Value φ)}
    {state state' : σ} (h : p.Walk env engine.evalLimit made outcome)
    (hreplay : Replays host env state made state') :
    engine.run host env p state = (outcome, state') ∧
      engine.calls host env p state = made.map Exchange.call := by
  have hrun {τ : Type} {host : Host φ τ} {state state' : τ}
      (hreplay : Replays host env state made state') :
      engine.run host env p state = (outcome, state') := by
    obtain ⟨hstatements⟩ := h
    have hruns := hstatements.runs .undefined hreplay
    unfold Runs at hruns
    unfold Engine.run Evaluator.start evalProgram
    rw [hruns]
  refine ⟨hrun hreplay, ?_⟩
  -- the same walk, by the host that writes the calls down
  unfold Engine.calls
  rw [hrun (hreplay.recorded [])]
  rfl

-- ============================================== every program has a record

/-- A name is refused, or stands for a function that takes so many
arguments. -/
theorem Environment.refuses_or_accepts (env : Environment φ) (name : String) (count : Nat) :
    (∃ refusal, env.Refuses name count refusal) ∨
      ∃ f, env.get? name = some (.function f) ∧ HostFunction.accepts f count = true := by
  cases hbound : env.get? name with
  | none => exact .inl ⟨_, .unbound hbound⟩
  | some value =>
    cases value with
    | function f =>
      cases haccepts : HostFunction.accepts f count with
      | true => exact .inr ⟨f, rfl, haccepts⟩
      | false => exact .inl ⟨_, .arityRejected hbound haccepts⟩
    | number x => exact .inl ⟨_, .notAFunction hbound rfl⟩
    | text s => exact .inl ⟨_, .notAFunction hbound rfl⟩
    | undefined => exact .inl ⟨_, .notAFunction hbound rfl⟩

mutual

/-- Every expression has a walk that its host bears out. -/
theorem Expr.exists_walk {σ : Type} (host : Host φ σ) (env : Environment φ) (limit : Nat) (e : Expr)
    (depth : Nat) (state : σ) : ∃ made outcome state',
      e.Walk env limit depth made outcome ∧ Replays host env state made state' := by
  by_cases full : limit ≤ depth
  · exact ⟨[], _, state, .tooDeep full, rfl⟩
  suffices ∃ made outcome state',
      e.Inside env limit (depth + 1) made outcome ∧ Replays host env state made state' by
    obtain ⟨made, outcome, state', inside, hreplay⟩ := this
    exact ⟨made, outcome, state', .opened (Nat.lt_of_not_le full) inside, hreplay⟩
  cases e with
  | number x => exact ⟨[], _, state, .number x, rfl⟩
  | text s => exact ⟨[], _, state, .text s, rfl⟩
  | identifier name => exact ⟨[], _, state, .identifier name, rfl⟩
  | binary op left right =>
    obtain ⟨made, error | x, mid, hleft, hmade⟩ := left.exists_walk host env limit (depth + 1) state
    · exact ⟨made, _, mid, .leftFails hleft, hmade⟩
    · obtain ⟨made', outcome, state', hright, hmade'⟩ :=
        right.exists_walk host env limit (depth + 1) mid
      exact ⟨_, _, state', .binary hleft hright, replays_append_iff.2 ⟨mid, hmade, hmade'⟩⟩
  | conditional condition whenTrue whenFalse =>
    obtain ⟨made, error | x, mid, hcondition, hmade⟩ :=
      condition.exists_walk host env limit (depth + 1) state
    · exact ⟨made, _, mid, .conditionFails hcondition, hmade⟩
    · -- the answers so far decide which arm it is
      have hchosen : ∃ made' outcome state',
          (if x.isTruthy = true then whenTrue else whenFalse).Walk env limit (depth + 1) made'
            outcome ∧ Replays host env mid made' state' := by
        split
        · exact whenTrue.exists_walk host env limit (depth + 1) mid
        · exact whenFalse.exists_walk host env limit (depth + 1) mid
      obtain ⟨made', outcome, state', hchosen, hmade'⟩ := hchosen
      exact ⟨_, _, state', .conditional hcondition hchosen,
        replays_append_iff.2 ⟨mid, hmade, hmade'⟩⟩
  | call name arguments =>
    obtain ⟨made, error | values, mid, harguments, hmade⟩ :=
      Expr.exists_walkRow host env limit arguments (depth + 1) state
    · exact ⟨made, _, mid, .argumentFails harguments, hmade⟩
    · rcases env.refuses_or_accepts name values.length with
        ⟨refusal, hrefuses⟩ | ⟨f, bound, accepts⟩
      · exact ⟨made, _, mid, .refused harguments hrefuses, hmade⟩
      · obtain ⟨answer, state', hcall⟩ :
            ∃ answer state', host.call f values env mid = (answer, state') := ⟨_, _, rfl⟩
        exact ⟨_, _, state', .call harguments bound accepts,
          replays_append_iff.2 ⟨mid, hmade, state', hcall, rfl⟩⟩
  | group statement =>
    obtain ⟨made, outcome, state', hstatement, hmade⟩ :=
      Expr.exists_walkRow host env limit statement (depth + 1) state
    exact ⟨made, _, state', .group hstatement, hmade⟩

theorem Expr.exists_walkRow {σ : Type} (host : Host φ σ) (env : Environment φ) (limit : Nat)
    (row : List Expr) (depth : Nat) (state : σ) : ∃ made outcome state',
      Expr.WalkRow env limit depth row made outcome ∧ Replays host env state made state' := by
  cases row with
  | nil => exact ⟨[], _, state, .nil, rfl⟩
  | cons first rest =>
    obtain ⟨made, error | x, mid, hfirst, hmade⟩ := first.exists_walk host env limit depth state
    · exact ⟨made, _, mid, .fails hfirst, hmade⟩
    · obtain ⟨made', outcome, state', hrest, hmade'⟩ :=
        Expr.exists_walkRow host env limit rest depth mid
      exact ⟨_, _, state', .cons hfirst hrest, replays_append_iff.2 ⟨mid, hmade, hmade'⟩⟩

end

theorem Program.exists_walkStatements {σ : Type} (host : Host φ σ) (env : Environment φ)
    (limit : Nat) (ss : List Statement) (state : σ) : ∃ made outcome state',
      Program.WalkStatements env limit ss made outcome ∧ Replays host env state made state' := by
  induction ss generalizing state with
  | nil => exact ⟨[], _, state, .nil, rfl⟩
  | cons s rest ih =>
    obtain ⟨made, error | values, mid, hfirst, hmade⟩ :=
      Expr.exists_walkRow host env limit s 0 state
    · exact ⟨made, _, mid, .fails hfirst, hmade⟩
    · obtain ⟨made', outcome, state', hrest, hmade'⟩ := ih mid
      exact ⟨_, _, state', .cons hfirst hrest, replays_append_iff.2 ⟨mid, hmade, hmade'⟩⟩

/-- What the engine does with a program is a walk that the host bears
out. -/
theorem Engine.exists_walk {σ : Type} (engine : Engine) (host : Host φ σ) (env : Environment φ)
    (p : Program) (state : σ) : ∃ made,
      p.Walk env engine.evalLimit made (engine.run host env p state).1 ∧
      Replays host env state made (engine.run host env p state).2 ∧
      engine.calls host env p state = made.map Exchange.call := by
  obtain ⟨made, outcome, state', hstatements, hreplay⟩ :=
    Program.exists_walkStatements host env engine.evalLimit p.statements state
  have hwalk : p.Walk env engine.evalLimit made _ := .statements hstatements
  obtain ⟨hrun, hcalls⟩ := hwalk.runs hreplay
  rw [hrun]
  exact ⟨made, hwalk, hreplay, hcalls⟩

end Reckoner
