/-
Who is asked, and who is to blame. Every call that the host is asked to
make is made for a call node of the program: the function is the one that
the node's name is bound to, it takes so many arguments, and it is given
the values that the node's arguments came to, in their order. A failure,
if it is not for want of levels, is that of a call node too, the last one
that evaluation came to: its name stands for nothing that takes so many
arguments, or the function it stands for gave the error back.

Both are read off a walk at once. A walk is accounted for if this is so of
all calls in its record and of its failure; that is kept when the walks of
the parts of a node are put together, whatever node the parts belong to.
-/
import Reckoner.Proofs.Evaluation.Order
import Reckoner.Proofs.Evaluation.Visits

namespace Reckoner

open Evaluator

variable {φ : Type} [HostFunction φ] {env : Environment φ} {limit : Nat}

-- ================================================= refusals, by the binding

namespace Environment.Refuses

variable {name : String} {count : Nat} {refusal : Refusal}

/-- A name refuses as unbound where it is bound to nothing, and only
there. -/
theorem unbound_iff (h : env.Refuses name count refusal) :
    refusal = .unbound ↔ env.get? name = none := by
  cases h with
  | unbound missing => exact ⟨fun _ => missing, fun _ => rfl⟩
  | notAFunction bound other => simp [bound]
  | arityRejected bound rejects => simp [bound]

theorem notAFunction_iff (h : env.Refuses name count refusal) {typeName : String} :
    refusal = .notAFunction typeName ↔
      ∃ value, env.get? name = some value ∧ value.function? = none ∧
        value.typeName = typeName := by
  cases h with
  | unbound missing => simp [missing]
  | notAFunction bound other => simp [bound, other]
  | arityRejected bound rejects => simp [bound, Value.function?]

theorem arityRejected_iff (h : env.Refuses name count refusal) {found : Nat} :
    refusal = .arityRejected found ↔
      found = count ∧ ∃ f, env.get? name = some (.function f) ∧
        HostFunction.accepts f count = false := by
  cases h with
  | unbound missing => simp [missing]
  | @notAFunction value bound other => cases value <;> simp_all [Value.function?]
  | arityRejected bound rejects =>
    constructor
    · rintro ⟨⟩
      exact ⟨rfl, _, bound, rejects⟩
    · rintro ⟨rfl, -⟩
      rfl

/-- A name that refuses a call has no function that accepts it. -/
theorem not_accepts (h : env.Refuses name count refusal) {f : φ}
    (bound : env.get? name = some (.function f)) : HostFunction.accepts f count = false := by
  cases h with
  | unbound missing => simp [missing] at bound
  | @notAFunction value bound' other => cases value <;> simp_all [Value.function?]
  | arityRejected bound' rejects =>
    cases bound.symm.trans bound'
    exact rejects

end Environment.Refuses

-- ========================================================= call nodes

/-- Behind these calls, the arguments of a call node among these nodes have
come to these values, and its name is about to be called. -/
inductive Asks (env : Environment φ) (limit : Nat) (nodes : Path → Option Expr) :
    List (Exchange φ) → String → List (Value φ) → Prop
  | node {path : Path} {name : String} {arguments : List Expr} {values : List (Value φ)}
      {depth : Nat} {first own : List (Exchange φ)}
      (here : nodes path = some (.call name arguments))
      (harguments : Expr.WalkRow env limit depth arguments own (.ok values)) :
      Asks env limit nodes (first ++ own) name values

/-- This failure, behind these calls, is that of a call node among these
nodes, or for want of levels. -/
inductive Blames (env : Environment φ) (limit : Nat) (nodes : Path → Option Expr) :
    List (Exchange φ) → EvalError → Prop
  | refused {made : List (Exchange φ)} {name : String} {values : List (Value φ)}
      {refusal : Refusal} (asks : Asks env limit nodes made name values)
      (refuses : env.Refuses name values.length refusal) :
      Blames env limit nodes made (.notCallable name refusal)
  | failed {made : List (Exchange φ)} {x : Exchange φ} {error : CallError}
      (answer : x.answer = .error error) :
      Blames env limit nodes (made ++ [x]) (.callFailed x.name error)
  | tooDeep {made : List (Exchange φ)} : Blames env limit nodes made (.stackOverflow limit limit)

/-- All calls are made for call nodes among these nodes, to what their
names are bound to, and a failure is that of one of them. -/
structure Accounted {α : Type} (env : Environment φ) (limit : Nat) (nodes : Path → Option Expr)
    (made : List (Exchange φ)) (outcome : Except EvalError α) : Prop where
  asks : ∀ before x behind, made = before ++ x :: behind →
    Asks env limit nodes before x.name x.arguments ∧
      env.get? x.name = some (.function x.function) ∧
      HostFunction.accepts x.function x.arguments.length = true
  blames : ∀ e, outcome = .error e → Blames env limit nodes made e

variable {α β : Type} {nodes nodes' : Path → Option Expr} {made made' : List (Exchange φ)}

theorem Asks.behind {name : String} {values : List (Value φ)}
    (h : Asks env limit nodes made' name values) (front : List (Exchange φ)) :
    Asks env limit nodes (front ++ made') name values := by
  cases h with
  | node here harguments =>
    rw [← List.append_assoc]
    exact .node here harguments

/-- A call node itself. -/
theorem Asks.here {name : String} {arguments : List Expr} {values : List (Value φ)} {depth : Nat}
    (harguments : Expr.WalkRow env limit depth arguments made (.ok values)) :
    Asks env limit (Expr.call name arguments).node? made name values := by
  have hself : (Expr.call name arguments).node? [] = some (.call name arguments) := rfl
  have hasks : Asks env limit (Expr.call name arguments).node? ([] ++ made) name values :=
    .node hself harguments
  exact hasks

/-- Nodes of a part are nodes of the whole. -/
theorem Asks.within {name : String} {values : List (Value φ)}
    (h : Asks env limit nodes made name values)
    (hnodes : ∀ path node, nodes path = some node → ∃ path', nodes' path' = some node) :
    Asks env limit nodes' made name values := by
  cases h with
  | node here harguments =>
    obtain ⟨path, here⟩ := hnodes _ _ here
    exact .node here harguments

omit [HostFunction φ] in
/-- A call among those of two records is among those of the one or of the
other. -/
theorem append_eq_append_cons {before behind : List (Exchange φ)} {x : Exchange φ}
    (h : made ++ made' = before ++ x :: behind) :
    (∃ mid, made = before ++ x :: mid) ∨
      ∃ front, before = made ++ front ∧ made' = front ++ x :: behind := by
  rcases List.append_eq_append_iff.1 h with ⟨front, hbefore, hmade'⟩ | ⟨mid, hmade, hbehind⟩
  · exact .inr ⟨front, hbefore, hmade'⟩
  · cases mid with
    | nil =>
      rw [List.append_nil] at hmade
      exact .inr ⟨[], by rw [hmade, List.append_nil], hbehind.symm⟩
    | cons y mid =>
      cases hbehind
      exact .inl ⟨mid, hmade⟩

namespace Accounted

theorem none (outcome : Except EvalError α)
    (h : ∀ e, outcome = .error e → Blames env limit nodes [] e) :
    Accounted env limit nodes [] outcome := by
  refine ⟨fun before x behind hmade => ?_, h⟩
  cases before <;> cases hmade

/-- What is accounted for by the nodes of a part is accounted for by those
of the whole. -/
theorem within {outcome : Except EvalError α} (h : Accounted env limit nodes made outcome)
    (hnodes : ∀ path node, nodes path = some node → ∃ path', nodes' path' = some node) :
    Accounted env limit nodes' made outcome := by
  refine ⟨fun before x behind hmade => ?_, fun e he => ?_⟩
  · obtain ⟨asks, hcapable⟩ := h.asks before x behind hmade
    exact ⟨asks.within hnodes, hcapable⟩
  · cases h.blames e he with
    | refused asks refuses => exact .refused (asks.within hnodes) refuses
    | failed answer => exact .failed answer
    | tooDeep => exact .tooDeep

/-- Behind calls that were accounted for, too. -/
theorem append {outcome : Except EvalError β} {a : α}
    (h : Accounted env limit nodes made (.ok a : Except EvalError α))
    (h' : Accounted env limit nodes made' outcome) :
    Accounted env limit nodes (made ++ made') outcome := by
  refine ⟨fun before x behind hmade => ?_, fun e he => ?_⟩
  · rcases append_eq_append_cons hmade with ⟨mid, hmade⟩ | ⟨front, rfl, hmade'⟩
    · exact h.asks before x mid hmade
    · obtain ⟨asks, hcapable⟩ := h'.asks front x behind hmade'
      exact ⟨asks.behind made, hcapable⟩
  · cases h'.blames e he with
    | refused asks refuses => exact .refused (asks.behind made) refuses
    | failed answer =>
      rw [← List.append_assoc]
      exact .failed answer
    | tooDeep => exact .tooDeep

theorem fail {e : EvalError} (h : Accounted env limit nodes made (.error e : Except EvalError α)) :
    Accounted env limit nodes made (.error e : Except EvalError β) :=
  ⟨h.asks, fun e' he => h.blames e' (congrArg Except.error (Except.error.inj he))⟩

theorem map {outcome : Except EvalError α} (h : Accounted env limit nodes made outcome)
    (f : α → β) : Accounted env limit nodes made (outcome.map f) := by
  cases outcome with
  | error e => exact h.fail
  | ok a => exact ⟨h.asks, nofun⟩

/-- Behind the values of its arguments, a name that is refused. -/
theorem refused {name : String} {values : List (Value φ)} {refusal : Refusal} {a : α}
    (h : Accounted env limit nodes made (.ok a : Except EvalError α))
    (asks : Asks env limit nodes made name values)
    (refuses : env.Refuses name values.length refusal) :
    Accounted env limit nodes made (.error (.notCallable name refusal) : Except EvalError β) := by
  refine ⟨h.asks, fun e he => ?_⟩
  cases he
  exact .refused asks refuses

/-- Behind the values of its arguments, a call, whatever the answer. -/
theorem call {x : Exchange φ} {a : α}
    (h : Accounted env limit nodes made (.ok a : Except EvalError α))
    (asks : Asks env limit nodes made x.name x.arguments)
    (bound : env.get? x.name = some (.function x.function))
    (accepts : HostFunction.accepts x.function x.arguments.length = true) :
    Accounted env limit nodes (made ++ [x]) (x.answer.mapError (.callFailed x.name)) := by
  refine ⟨fun before y behind hmade => ?_, fun e he => ?_⟩
  · rcases append_eq_append_cons hmade with ⟨mid, hmade⟩ | ⟨front, rfl, hlast⟩
    · exact h.asks before y mid hmade
    · cases front with
      | nil =>
        cases hlast
        rw [List.append_nil]
        exact ⟨asks, bound, accepts⟩
      | cons z front => simp at hlast
  · cases hanswer : x.answer with
    | ok value =>
      rw [hanswer] at he
      cases he
    | error error =>
      rw [hanswer] at he
      cases he
      exact .failed hanswer

/-- The nodes of a branch are nodes of the tree. -/
theorem child {e part : Expr} {outcome : Except EvalError α} (k : Nat)
    (h : Accounted env limit part.node? made outcome) (hpart : e.children[k]? = some part) :
    Accounted env limit e.node? made outcome := by
  refine h.within fun path node hnode => ⟨k :: path, ?_⟩
  rw [Expr.node?, hpart]
  exact hnode

/-- So are those of all its branches. -/
theorem children {e : Expr} {row : List Expr} {outcome : Except EvalError α}
    (h : Accounted env limit (Expr.nodeIn? row) made outcome) (hrow : e.children = row) :
    Accounted env limit e.node? made outcome := by
  refine h.within fun path node hnode => ⟨path, ?_⟩
  cases path with
  | nil => cases hnode
  | cons k path => rwa [Expr.node?, hrow]

/-- An account of the first expression of a row is one of the row. -/
theorem first {e : Expr} {rest : List Expr} {outcome : Except EvalError α}
    (h : Accounted env limit e.node? made outcome) :
    Accounted env limit (Expr.nodeIn? (e :: rest)) made outcome :=
  h.within fun path _ hnode => ⟨0 :: path, hnode⟩

theorem later {e : Expr} {rest : List Expr} {outcome : Except EvalError α}
    (h : Accounted env limit (Expr.nodeIn? rest) made outcome) :
    Accounted env limit (Expr.nodeIn? (e :: rest)) made outcome := by
  refine h.within fun path node hnode => ?_
  cases path with
  | nil => cases hnode
  | cons k path => exact ⟨(k + 1) :: path, hnode⟩

end Accounted

-- ============================================================ along a walk

mutual

/-- A walk within the limit is accounted for. -/
theorem Expr.Walk.accounted {depth : Nat} {e : Expr} {made : List (Exchange φ)}
    {outcome : Except EvalError (Value φ)} (hdepth : depth ≤ limit)
    (h : e.Walk env limit depth made outcome) : Accounted env limit e.node? made outcome := by
  rcases h.inv with ⟨full, rfl, rfl⟩ | ⟨room, inside⟩
  · obtain rfl := Nat.le_antisymm hdepth full
    refine .none _ fun e he => ?_
    cases he
    exact .tooDeep
  cases e with
  | number x =>
    cases inside
    exact .none _ nofun
  | text s =>
    cases inside
    exact .none _ nofun
  | identifier name =>
    cases inside
    exact .none _ nofun
  | binary op left right =>
    rcases inside.binary_inv with ⟨e, rfl, hleft⟩ | ⟨before, behind, x, _, rfl, rfl, hleft, hright⟩
    · exact .fail (.child 0 (hleft.accounted room) rfl)
    · exact .append (.child 0 (hleft.accounted room) rfl)
        (.map (.child 1 (hright.accounted room) rfl) _)
  | conditional condition whenTrue whenFalse =>
    rcases inside.conditional_inv with
      ⟨e, rfl, hcondition⟩ | ⟨before, behind, x, rfl, hcondition, ⟨-, harm⟩ | ⟨-, harm⟩⟩
    · exact .fail (.child 0 (hcondition.accounted room) rfl)
    · exact .append (.child 0 (hcondition.accounted room) rfl)
        (.child 1 (harm.accounted room) rfl)
    · exact .append (.child 0 (hcondition.accounted room) rfl)
        (.child 2 (harm.accounted room) rfl)
  | call name arguments =>
    rcases inside.call_inv with ⟨e, rfl, harguments⟩ | ⟨values, refusal, rfl, harguments, refuses⟩ |
      ⟨before, f, values, answer, rfl, rfl, harguments, bound, accepts⟩
    · exact .fail (.children (harguments.accounted room) rfl)
    · exact .refused (.children (harguments.accounted room) rfl) (.here harguments) refuses
    · exact .call (.children (harguments.accounted room) rfl) (.here harguments) bound accepts
  | group statement =>
    obtain ⟨result, rfl, hstatement⟩ := inside.group_inv
    exact .map (.children (hstatement.accounted room) rfl) _

theorem Expr.WalkRow.accounted {depth : Nat} {row : List Expr} {made : List (Exchange φ)}
    {outcome : Except EvalError (List (Value φ))} (hdepth : depth ≤ limit)
    (h : Expr.WalkRow env limit depth row made outcome) :
    Accounted env limit (Expr.nodeIn? row) made outcome := by
  cases row with
  | nil =>
    cases h
    exact .none _ nofun
  | cons first rest =>
    rcases h.cons_inv with ⟨e, rfl, hfirst⟩ | ⟨before, behind, x, _, rfl, rfl, hfirst, hrest⟩
    · exact .fail (.first (hfirst.accounted hdepth))
    · exact .append (.first (hfirst.accounted hdepth))
        (.map (.later (hrest.accounted hdepth)) _)

end

theorem Program.WalkStatements.accounted {ss : List Statement} {made : List (Exchange φ)}
    {outcome : Except EvalError (List (Value φ))}
    (h : Program.WalkStatements env limit ss made outcome) :
    Accounted env limit (Program.mk ss).node? made outcome := by
  -- the nodes of the first statement, and those of the others
  have hhead (row : Statement) (rest : List Statement) (path : Path) (node : Expr)
      (hnode : Expr.nodeIn? row path = some node) :
      ∃ path', (Program.mk (row :: rest)).node? path' = some node := ⟨0 :: path, hnode⟩
  have htail (row : Statement) (rest : List Statement) (path : Path) (node : Expr)
      (hnode : (Program.mk rest).node? path = some node) :
      ∃ path', (Program.mk (row :: rest)).node? path' = some node := by
    cases path with
    | nil => cases hnode
    | cons k path => exact ⟨(k + 1) :: path, hnode⟩
  induction h with
  | nil => exact .none _ nofun
  | fails hfirst => exact .fail (.within (hfirst.accounted (Nat.zero_le limit)) (hhead _ _))
  | cons hfirst hrest ih =>
    exact .append (.within (hfirst.accounted (Nat.zero_le limit)) (hhead _ _))
      (.map (.within ih (htail _ _)) _)

/-- Whatever a program comes to, all that is done on the way is accounted
for. -/
theorem Program.Walk.accounted {p : Program} {made : List (Exchange φ)}
    {outcome : Except EvalError (Value φ)} (h : p.Walk env limit made outcome) :
    Accounted env limit p.node? made outcome := by
  obtain ⟨hstatements⟩ := h
  exact hstatements.accounted.map _

-- ================================================================= runs

section Runs

variable {σ : Type} (engine : Engine) (host : Host φ σ) (env : Environment φ) (p : Program)
  (state : σ)

/-- Evaluation comes to a call node of the program, behind these calls:
where the first of them have led the host to, the arguments of the node
are evaluated in order, with the other calls, to these values, which
leaves the host in the last state. -/
inductive Engine.ComesTo : List (Exchange φ) → String → List Expr → List (Value φ) → σ → Prop
  | node {path : Path} {name : String} {arguments : List Expr} {values : List (Value φ)}
      {depth : Nat} {first own : List (Exchange φ)} {begun asked : σ}
      (here : p.node? path = some (.call name arguments))
      (hfirst : Replays host env state first begun) (hown : Replays host env begun own asked)
      (harguments : evalEach ⟨host, env, engine.evalLimit⟩ arguments ⟨depth, begun⟩
        = (.ok values, ⟨depth, asked⟩)) :
      Engine.ComesTo (first ++ own) name arguments values asked

/-- The failure is that of a call by this name, with these arguments and
their values, which the host was to be asked for in this state. -/
structure CallFault (env : Environment φ) (host : Host φ σ) (e : EvalError) (name : String)
    (arguments : List Expr) (values : List (Value φ)) (asked : σ) : Prop where
  named : (∃ refusal, e = .notCallable name refusal) ∨ ∃ error, e = .callFailed name error
  unbound : e = .notCallable name .unbound ↔ env.get? name = none
  notAFunction : ∀ typeName, e = .notCallable name (.notAFunction typeName) ↔
    ∃ value, env.get? name = some value ∧ value.function? = none ∧ value.typeName = typeName
  arityRejected : ∀ count, e = .notCallable name (.arityRejected count) ↔
    count = arguments.length ∧
      ∃ f, env.get? name = some (.function f) ∧ HostFunction.accepts f count = false
  callFailed : ∀ error, e = .callFailed name error ↔
    ∃ f, env.get? name = some (.function f) ∧ HostFunction.accepts f values.length = true ∧
      (host.call f values env asked).1 = .error error

/-- The record of a run says for whom each call was made, and who is to
blame for the failure. -/
structure Engine.Accounts (made : List (Exchange φ)) : Prop where
  calls : engine.calls host env p state = made.map Exchange.call
  replays : Replays host env state made (engine.run host env p state).2
  /-- A call is made for a call node, to the function that its name is bound
  to, with the values of its arguments. -/
  capable : ∀ before x behind, made = before ++ x :: behind → ∃ arguments asked,
    engine.ComesTo host env p state before x.name arguments x.arguments asked ∧
      x.arguments.length = arguments.length ∧
      env.get? x.name = some (.function x.function) ∧
      HostFunction.accepts x.function x.arguments.length = true ∧
      (host.call x.function x.arguments env asked).1 = x.answer
  /-- A failure is that of the last call node that was come to. -/
  blamed : ∀ e, (engine.run host env p state).1 = .error e →
    e = .stackOverflow engine.evalLimit engine.evalLimit ∨
      ∃ before name arguments values asked,
        engine.ComesTo host env p state before name arguments values asked ∧
          values.length = arguments.length ∧
          (made = before ∨ ∃ f answer, made = before ++ [⟨name, f, values, answer⟩]) ∧
          CallFault env host e name arguments values asked
  callFree : (∀ path name arguments, p.node? path ≠ some (.call name arguments)) →
    ∀ e, (engine.run host env p state).1 = .error e →
      e = .stackOverflow engine.evalLimit engine.evalLimit

end Runs

section Faults

variable {σ : Type} {engine : Engine} {host : Host φ σ} {env : Environment φ} {p : Program}
  {state asked : σ} {name : String} {arguments : List Expr} {values : List (Value φ)}

/-- What a walk comes to, evaluation does. -/
theorem Asks.comesTo {before : List (Exchange φ)}
    (h : Asks env engine.evalLimit p.node? before name values)
    (hreplay : Replays host env state before asked) :
    ∃ arguments, engine.ComesTo host env p state before name arguments values asked ∧
      values.length = arguments.length := by
  cases h with
  | node here harguments =>
    obtain ⟨begun, hfirst, hown⟩ := replays_append_iff.1 hreplay
    exact ⟨_, .node here hfirst hown (harguments.runs hown), harguments.length_eq⟩

theorem CallFault.of_refuses {refusal : Refusal} (hcount : values.length = arguments.length)
    (refuses : env.Refuses name values.length refusal) (host : Host φ σ) (asked : σ) :
    CallFault env host (.notCallable name refusal) name arguments values asked := by
  refine ⟨.inl ⟨refusal, rfl⟩, ?_, fun typeName => ?_, fun count => ?_, fun error => ?_⟩
  · simp [refuses.unbound_iff]
  · simp [refuses.notAFunction_iff]
  · rw [← hcount]
    simp only [EvalError.notCallable.injEq, true_and, refuses.arityRejected_iff]
    constructor
    · rintro ⟨rfl, hrejects⟩
      exact ⟨rfl, hrejects⟩
    · rintro ⟨rfl, hrejects⟩
      exact ⟨rfl, hrejects⟩
  · constructor
    · nofun
    · rintro ⟨f, bound, accepts, -⟩
      rw [refuses.not_accepts bound] at accepts
      cases accepts

theorem CallFault.of_answer {f : φ} {error : CallError} (hcount : values.length = arguments.length)
    (bound : env.get? name = some (.function f))
    (accepts : HostFunction.accepts f values.length = true)
    (hcall : (host.call f values env asked).1 = .error error) :
    CallFault env host (.callFailed name error) name arguments values asked := by
  refine ⟨.inr ⟨error, rfl⟩, ?_, fun typeName => ?_, fun count => ?_, fun error' => ?_⟩
  · simp [bound]
  · simp [bound, Value.function?]
  · constructor
    · nofun
    · rintro ⟨rfl, g, bound', rejects⟩
      cases bound.symm.trans bound'
      rw [← hcount, accepts] at rejects
      cases rejects
  · constructor
    · rintro ⟨⟩
      exact ⟨f, bound, accepts, hcall⟩
    · rintro ⟨g, bound', -, hcall'⟩
      cases bound.symm.trans bound'
      cases hcall.symm.trans hcall'
      rfl

/-- A failure that is accounted for is that of the last call node. -/
theorem Blames.exists_callFault {made : List (Exchange φ)} {e : EvalError} {state' : σ}
    (h : Blames env engine.evalLimit p.node? made e)
    (hasks : ∀ before x behind, made = before ++ x :: behind →
      Asks env engine.evalLimit p.node? before x.name x.arguments ∧
        env.get? x.name = some (.function x.function) ∧
        HostFunction.accepts x.function x.arguments.length = true)
    (hreplay : Replays host env state made state') :
    e = .stackOverflow engine.evalLimit engine.evalLimit ∨
      ∃ before name arguments values asked,
        engine.ComesTo host env p state before name arguments values asked ∧
          values.length = arguments.length ∧
          (made = before ∨ ∃ f answer, made = before ++ [⟨name, f, values, answer⟩]) ∧
          CallFault env host e name arguments values asked := by
  cases h with
  | refused asks refuses =>
    obtain ⟨arguments, hcomes, hcount⟩ := asks.comesTo hreplay
    exact .inr ⟨_, _, _, _, _, hcomes, hcount, .inl rfl, .of_refuses hcount refuses host _⟩
  | @failed before x error answer =>
    obtain ⟨asks, bound, accepts⟩ := hasks before x [] rfl
    obtain ⟨asked, hbefore, _, hcall, -⟩ := replays_append_iff.1 hreplay
    obtain ⟨arguments, hcomes, hcount⟩ := asks.comesTo hbefore
    refine .inr ⟨_, _, _, _, _, hcomes, hcount, .inr ⟨x.function, x.answer, rfl⟩,
      .of_answer hcount bound accepts ?_⟩
    rw [hcall, answer]
  | tooDeep => exact .inl rfl

end Faults

/-- In every run, each call is made for a call node of the program: to the
function that the node's name is bound to, which takes so many arguments,
with the values that the node's arguments came to, in order. A failure is
for want of levels or that of the last call node that evaluation came to,
for the reason that there is; so a program without calls fails for want of
levels only. And a function of the stock that takes exactly so many
arguments is never called with another number of them. -/
theorem Engine.run_accounts :
    (∀ {φ σ : Type} [HostFunction φ] (engine : Engine) (host : Host φ σ) (env : Environment φ)
      (p : Program) (state : σ), ∃ made, engine.Accounts host env p state made) ∧
    ∀ {σ : Type} (engine : Engine) (host : Host Builtin σ) (env : Environment Builtin)
      (p : Program) (state : σ), ∀ call ∈ engine.calls host env p state, ∀ n,
        call.1.arity = .exactly n → call.2.length = n := by
  constructor
  · intro φ σ _ engine host env p state
    obtain ⟨made, hwalk, hreplay, hcalls⟩ := engine.exists_walk host env p state
    have haccounted := hwalk.accounted
    have hblamed (e : EvalError) (he : (engine.run host env p state).1 = .error e) :=
      (haccounted.blames e he).exists_callFault haccounted.asks hreplay
    refine ⟨made, hcalls, hreplay, fun before x behind hmade => ?_, hblamed, fun hfree e he => ?_⟩
    · obtain ⟨asks, bound, accepts⟩ := haccounted.asks before x behind hmade
      rw [hmade] at hreplay
      obtain ⟨asked, hbefore, _, hcall, -⟩ := replays_append_iff.1 hreplay
      obtain ⟨arguments, hcomes, hcount⟩ := asks.comesTo hbefore
      exact ⟨arguments, asked, hcomes, hcount, bound, accepts, congrArg Prod.fst hcall⟩
    · rcases hblamed e he with hdeep | ⟨_, name, arguments, _, _, hcomes, -⟩
      · exact hdeep
      · cases hcomes with
        | node here hfirst hown harguments => exact absurd here (hfree _ name arguments)
  · intro σ engine host env p state call hcall n hexactly
    obtain ⟨made, hwalk, -, hcalls⟩ := engine.exists_walk host env p state
    rw [hcalls] at hcall
    obtain ⟨x, hx, rfl⟩ := List.mem_map.1 hcall
    obtain ⟨before, behind, hmade⟩ := List.append_of_mem hx
    obtain ⟨-, -, accepts⟩ := hwalk.accounted.asks before x behind hmade
    change x.function.arity.accepts x.arguments.length = true at accepts
    change x.function.arity = .exactly n at hexactly
    rw [hexactly] at accepts
    exact (of_decide_eq_true accepts).symm

/-- Two functions of the stock, one for two arguments and one for one. -/
def pairingNames : Environment Builtin :=
  (Environment.empty.registerFunction ⟨0, "pair", .exactly 2, .count⟩).registerFunction
    ⟨1, "lone", .exactly 1, .count⟩

/-- The program `pair("a", pair("b", "c")); lone(pair("d", "e"), "f");`. -/
def pairingProgram : Program :=
  ⟨[[.call "pair" [.text "a", .call "pair" [.text "b", .text "c"]]],
    [.call "lone" [.call "pair" [.text "d", .text "e"], .text "f"]]]⟩

/-- Three calls are made with two arguments each. The last call node is
refused, and its name stands for a function that does not take two. -/
theorem Engine.run_accounts_pairing :
    (∃ made, (default : Engine).Accounts (Builtin.host 1) pairingNames pairingProgram .empty made ∧
        made.length = 3) ∧
      (∃ name f, pairingNames.get? name = some (.function f) ∧
        HostFunction.accepts f 2 = false) ∧
      ∀ call ∈ (default : Engine).calls (Builtin.host 1) pairingNames pairingProgram .empty,
        ∀ n, call.1.arity = .exactly n → call.2.length = n := by
  obtain ⟨haccounts, hexactly⟩ := Engine.run_accounts
  obtain ⟨made, haccounted⟩ :=
    haccounts default (Builtin.host 1) pairingNames pairingProgram .empty
  have hcalls : ((default : Engine).calls (Builtin.host 1) pairingNames pairingProgram
      .empty).length = 3 := by decide +kernel
  have hrefused : (match ((default : Engine).run (Builtin.host 1) pairingNames pairingProgram
      .empty).1 with
      | .ok _ => none
      | .error e => some e) = some (.notCallable "lone" (.arityRejected 2)) := by decide +kernel
  have hblamed := haccounted.blamed
  generalize (Engine.run default (Builtin.host 1) pairingNames pairingProgram .empty).1 = outcome
    at hrefused hblamed
  refine ⟨⟨made, haccounted, ?_⟩, ?_, hexactly _ _ _ _ _⟩
  · rwa [haccounted.calls, List.length_map] at hcalls
  · cases outcome with
    | ok value => cases hrefused
    | error e =>
      cases hrefused
      rcases hblamed _ rfl with hdeep | ⟨_, name, _, _, _, -, -, -, hfault⟩
      · cases hdeep
      · obtain ⟨refusal, hnamed⟩ | ⟨error, hnamed⟩ := hfault.named
        · cases hnamed
          obtain ⟨-, hrejects⟩ := (hfault.arityRejected 2).1 rfl
          exact ⟨_, hrejects⟩
        · cases hnamed

end Reckoner
