/-
The calls and the nodes they are made for. That no node is evaluated twice
shows in the calls: they are made for call nodes that evaluation comes to,
and no two of them for the same one. The calls are those that are written
down behind a step. They are assigned to nodes part by part, and a call
node is assigned its own call behind those of its arguments, so the order
of the calls is not that of the visits.

The visits may be those of another host, as long as it can be seen
through, and so the host that writes the calls down comes to the nodes
that the host alone comes to.
-/
import Mathlib.Data.List.Perm.Subperm
import Reckoner.Proofs.Evaluation.Order
import Reckoner.Proofs.Evaluation.Visits

namespace Reckoner

open Evaluator

-- ====================================================== hosts seen through

/-- Seen through the view, the same nodes are come to. -/
def VisitsSeen {σ τ : Type} (view : σ → τ) (vs : State σ → List Visit)
    (vs' : State τ → List Visit) : Prop :=
  ∀ depth state, vs' ⟨depth, view state⟩ = vs ⟨depth, state⟩

namespace VisitsSeen

variable {φ σ τ α : Type} {view : σ → τ} {vs later : State σ → List Visit}
  {vs' later' : State τ → List Visit}

theorem below {k : Nat} (h : VisitsSeen view vs vs') :
    VisitsSeen view (fun s => (vs s).map (.below k)) (fun s => (vs' s).map (.below k)) :=
  fun depth state => congrArg (List.map (Visit.below k)) (h depth state)

/-- The visits in a part, and those behind it. -/
theorem append {step : Step σ α} {step' : Step τ α} {next : α → State σ → List Visit}
    {next' : α → State τ → List Visit} (h : VisitsSeen view vs vs') (hstep : Seen view step step')
    (hnext : ∀ a, VisitsSeen view (next a) (next' a)) :
    VisitsSeen view (fun s => vs s ++ visitsAfter (step s) next)
      (fun s => vs' s ++ visitsAfter (step' s) next') := by
  intro depth state
  dsimp only
  rw [h depth state, hstep depth state]
  rcases step ⟨depth, state⟩ with ⟨e | a, s⟩
  · rfl
  · exact congrArg _ (hnext a s.depth s.host)

theorem visiting {ev : Evaluator φ σ} {ev' : Evaluator φ τ} (hlimit : ev'.limit = ev.limit)
    (h : VisitsSeen view vs vs') : VisitsSeen view (ev.visiting vs) (ev'.visiting vs') := by
  intro depth state
  unfold Evaluator.visiting
  rw [hlimit, h (depth + 1) state]

variable [HostFunction φ] {host : Host φ σ} {host' : Host φ τ} (env : Environment φ) (limit : Nat)

mutual

/-- The visits of an expression are seen through the view. -/
theorem expr (hview : Shows view host host') (e : Expr) :
    VisitsSeen view (e.visits ⟨host, env, limit⟩) (e.visits ⟨host', env, limit⟩) := by
  cases e with
  | number x => exact visiting rfl fun _ _ => rfl
  | text t => exact visiting rfl fun _ _ => rfl
  | identifier name => exact visiting rfl fun _ _ => rfl
  | binary op left right =>
    exact visiting rfl (append (below (expr hview left)) (seen_evalExpr env limit hview left)
      fun _ => below (expr hview right))
  | conditional condition whenTrue whenFalse =>
    refine visiting rfl (append (below (expr hview condition))
      (seen_evalExpr env limit hview condition) fun x => ?_)
    split
    · exact below (expr hview whenTrue)
    · exact below (expr hview whenFalse)
  | call name arguments => exact visiting rfl (row hview 0 arguments)
  | group statement => exact visiting rfl (row hview 0 statement)

theorem row (hview : Shows view host host') (k : Nat) (es : List Expr) :
    VisitsSeen view (Expr.visitsEach ⟨host, env, limit⟩ k es)
      (Expr.visitsEach ⟨host', env, limit⟩ k es) := by
  cases es with
  | nil => exact fun _ _ => rfl
  | cons e rest =>
    exact append (below (expr hview e)) (seen_evalExpr env limit hview e)
      fun _ => row hview (k + 1) rest

end

/-- The visits of some statements are seen through the view. -/
theorem statements (hview : Shows view host host') (k : Nat) (ss : List Statement) :
    VisitsSeen view (Program.visitsEach ⟨host, env, limit⟩ k ss)
      (Program.visitsEach ⟨host', env, limit⟩ k ss) := by
  induction ss generalizing k with
  | nil => exact fun _ _ => rfl
  | cons es rest ih =>
    exact append (below (row env limit hview 0 es)) (seen_evalLast env limit hview .undefined es)
      fun _ => ih (k + 1)

end VisitsSeen

-- =================================================== whose calls they are

section Callers

variable {φ σ α β : Type}

/-- The node that this path leads to makes this call. -/
def Makes (env : Environment φ) (nodes : Path → Option Expr) (path : Path) (call : Call φ) :
    Prop :=
  ∃ name arguments, nodes path = some (.call name arguments) ∧
    env.get? name = some (.function call.1) ∧ call.2.length = arguments.length

/-- The calls that a step makes are those of nodes it comes to, and no two
of them are those of the same one. -/
def Attributed (env : Environment φ) (nodes : Path → Option Expr)
    (step : Step (σ × List (Call φ)) α) (vs : State (σ × List (Call φ)) → List Visit) : Prop :=
  ∀ s, ∃ callers : List (Path × Call φ),
    (step s).2.host.2 = s.host.2 ++ callers.map Prod.snd ∧
      (callers.map Prod.fst).Subperm ((vs s).map Visit.path) ∧
      ∀ x ∈ callers, Makes env nodes x.1 x.2

namespace Attributed

variable {env : Environment φ} {nodes nodes' : Path → Option Expr}
  {step : Step (σ × List (Call φ)) α} {vs : State (σ × List (Call φ)) → List Visit}

theorem pure (a : α) : Attributed (σ := σ) env nodes (pure a) fun _ => [] :=
  fun s => ⟨[], (List.append_nil s.host.2).symm, List.nil_subperm, List.forall_mem_nil _⟩

/-- Calls are attributed to the visits of the first step and then of the
second. -/
theorem bind {next : α → Step (σ × List (Call φ)) β}
    {later : α → State (σ × List (Call φ)) → List Visit} (h : Attributed env nodes step vs)
    (hnext : ∀ a, Attributed env nodes (next a) (later a)) :
    Attributed env nodes (step >>= next) fun s => vs s ++ visitsAfter (step s) later := by
  intro s
  obtain ⟨callers, hcalls, hfew, hmakes⟩ := h s
  rw [step_bind]
  dsimp only
  rcases hstep : step s with ⟨e | a, mid⟩
  · rw [hstep] at hcalls
    refine ⟨callers, hcalls, ?_, hmakes⟩
    rwa [visitsAfter, List.append_nil]
  · obtain ⟨more, hmore, hfew', hmakes'⟩ := hnext a mid
    rw [hstep] at hcalls
    refine ⟨callers ++ more, ?_, ?_, fun x hx => ?_⟩
    · rw [List.map_append, ← List.append_assoc, ← hcalls]
      exact hmore
    · rw [List.map_append, List.map_append]
      exact hfew.append hfew'
    · exact (List.mem_append.1 hx).elim (hmakes x) (hmakes' x)

/-- What is made of the answer makes no calls. -/
theorem map (h : Attributed env nodes step vs) (f : α → β) :
    Attributed env nodes (step >>= fun a => Pure.pure (f a)) vs := by
  intro s
  obtain ⟨callers, hcalls, hfew, hmakes⟩ := h s
  refine ⟨callers, ?_, hfew, hmakes⟩
  rw [step_bind, ← hcalls]
  rcases step s with ⟨e | a, mid⟩ <;> rfl

/-- What a branch comes to, seen from the node. -/
theorem below {k : Nat} (h : Attributed env nodes step vs)
    (hnodes : ∀ path, nodes' (k :: path) = nodes path) :
    Attributed env nodes' step fun s => (vs s).map (.below k) := by
  intro s
  obtain ⟨callers, hcalls, hfew, hmakes⟩ := h s
  refine ⟨callers.map fun x => (k :: x.1, x.2), ?_, ?_, fun x hx => ?_⟩
  · rw [List.map_map]
    exact hcalls
  · have hbelow := List.Subperm.map (List.cons_injective (a := k)) hfew
    rw [List.map_map, List.map_map] at hbelow ⊢
    exact hbelow
  · obtain ⟨y, hy, rfl⟩ := List.mem_map.1 hx
    obtain ⟨name, arguments, hnode, hmade⟩ := hmakes y hy
    exact ⟨name, arguments, (hnodes y.1).trans hnode, hmade⟩

/-- A node other than a call makes none itself. -/
theorem visiting {ev : Evaluator φ (σ × List (Call φ))} (h : Attributed env nodes step vs) :
    Attributed env nodes (ev.nested step) (ev.visiting vs) := by
  intro s
  unfold Evaluator.nested Evaluator.visiting
  by_cases full : ev.limit ≤ s.depth
  · rw [if_pos full, if_pos full]
    exact ⟨[], (List.append_nil s.host.2).symm, List.nil_subperm, List.forall_mem_nil _⟩
  · rw [if_neg full, if_neg full]
    obtain ⟨callers, hcalls, hfew, hmakes⟩ := h ⟨s.depth + 1, s.host⟩
    exact ⟨callers, hcalls, hfew.cons_right [], hmakes⟩

end Attributed

variable [HostFunction φ] {host : Host φ σ} {env : Environment φ} {limit : Nat}

/-- A row that succeeds has a value for each of its expressions. -/
theorem Evaluator.length_evalEach {ev : Evaluator φ σ} {row : List Expr} {s s' : State σ}
    {values : List (Value φ)} (h : ev.evalEach row s = (.ok values, s')) :
    values.length = row.length := by
  obtain ⟨made, outcome, state, hwalk, hreplay⟩ :=
    Expr.exists_walkRow ev.host ev.environment ev.limit row s.depth s.host
  have hruns : ev.evalEach row s = (outcome, ⟨s.depth, state⟩) := hwalk.runs hreplay
  obtain ⟨rfl, -⟩ := Prod.mk.inj (h.symm.trans hruns)
  exact hwalk.length_eq

/-- One call is written down, or none if it is refused. -/
theorem Evaluator.invoke_recorded (name : String) (values : List (Value φ))
    (s : State (σ × List (Call φ))) :
    (invoke ⟨host.recorded, env, limit⟩ name values s).2.host.2 = s.host.2 ∨
      ∃ f, env.get? name = some (.function f) ∧
        (invoke ⟨host.recorded, env, limit⟩ name values s).2.host.2
          = s.host.2 ++ [(f, values)] := by
  unfold invoke
  rcases env.refuses_or_accepts name values.length with ⟨refusal, refuses⟩ | ⟨f, bound, accepts⟩
  · rw [callee_of_refuses refuses]
    exact .inl rfl
  · rw [callee_of_accepts bound accepts]
    exact .inr ⟨f, bound, rfl⟩

namespace Attributed

/-- Behind the calls of its arguments a call node makes its own, or is
refused. -/
theorem calling {name : String} {arguments : List Expr}
    {vs : State (σ × List (Call φ)) → List Visit}
    (h : Attributed env (Expr.call name arguments).node?
      (evalEach ⟨host.recorded, env, limit⟩ arguments) vs) :
    Attributed env (Expr.call name arguments).node?
      (evalExpr ⟨host.recorded, env, limit⟩ (.call name arguments))
      (Evaluator.visiting ⟨host.recorded, env, limit⟩ vs) := by
  intro s
  unfold evalExpr nested Evaluator.visiting
  by_cases full : limit ≤ s.depth
  · rw [if_pos full, if_pos full]
    exact ⟨[], (List.append_nil s.host.2).symm, List.nil_subperm, List.forall_mem_nil _⟩
  · rw [if_neg full, if_neg full]
    obtain ⟨callers, hcalls, hfew, hmakes⟩ := h ⟨s.depth + 1, s.host⟩
    rw [step_bind]
    rcases hstep : evalEach ⟨host.recorded, env, limit⟩ arguments ⟨s.depth + 1, s.host⟩
      with ⟨e | values, mid⟩
    · rw [hstep] at hcalls
      exact ⟨callers, hcalls, hfew.cons_right [], hmakes⟩
    · rw [hstep] at hcalls
      rcases invoke_recorded name values mid with hmade | ⟨f, bound, hmade⟩
      · exact ⟨callers, hmade.trans hcalls, hfew.cons_right [], hmakes⟩
      · refine ⟨callers ++ [([], (f, values))], ?_, ?_, fun x hx => ?_⟩
        · rw [List.map_append, ← List.append_assoc, ← hcalls]
          exact hmade
        · rw [List.map_append]
          exact (List.perm_append_singleton [] _).subperm_right.2 ((List.subperm_cons []).2 hfew)
        · rcases List.mem_append.1 hx with hx | hx
          · exact hmakes x hx
          · obtain rfl := List.mem_singleton.1 hx
            exact ⟨name, arguments, rfl, bound, length_evalEach hstep⟩

mutual

/-- The calls of an expression are attributed to its visits. -/
theorem expr (e : Expr) :
    Attributed env e.node? (evalExpr ⟨host.recorded, env, limit⟩ e)
      (e.visits ⟨host.recorded, env, limit⟩) := by
  cases e with
  | number x => exact (pure _).visiting
  | text t => exact (pure _).visiting
  | identifier name => exact (pure _).visiting
  | binary op left right =>
    refine visiting (bind ((expr left).below fun _ => rfl) fun x => ?_)
    exact ((expr right).below fun _ => rfl).map _
  | conditional condition whenTrue whenFalse =>
    refine visiting (bind ((expr condition).below fun _ => rfl) fun x => ?_)
    split
    · exact (expr whenTrue).below fun _ => rfl
    · exact (expr whenFalse).below fun _ => rfl
  | call name arguments => exact calling (row arguments 0 fun _ _ => rfl)
  | group statement =>
    have hrow : Attributed env (Expr.group statement).node?
        (evalEach ⟨host.recorded, env, limit⟩ statement)
        (Expr.visitsEach ⟨host.recorded, env, limit⟩ 0 statement) :=
      row statement 0 fun _ _ => rfl
    refine visiting ?_
    rw [evalLast_eq]
    exact hrow.map _

theorem row {nodes : Path → Option Expr} (es : List Expr) (k : Nat)
    (hnodes : ∀ i path, nodes ((i + k) :: path) = Expr.nodeIn? es (i :: path)) :
    Attributed env nodes (evalEach ⟨host.recorded, env, limit⟩ es)
      (Expr.visitsEach ⟨host.recorded, env, limit⟩ k es) := by
  cases es with
  | nil => exact pure _
  | cons e rest =>
    refine bind ((expr e).below (branch_first hnodes)) fun x => ?_
    exact (row rest (k + 1) (branch_next hnodes)).map _

end

/-- The calls of some statements are attributed to their visits. -/
theorem statements {nodes : Path → Option Expr} (ss : List Statement) (k : Nat) (last : Value φ)
    (hnodes : ∀ i path, nodes ((i + k) :: path) = ss[i]?.bind (Expr.nodeIn? · path)) :
    Attributed env nodes
      (ss.foldlM (fun _ row => evalStatement ⟨host.recorded, env, limit⟩ row) last)
      (Program.visitsEach ⟨host.recorded, env, limit⟩ k ss) := by
  induction ss generalizing k last with
  | nil => exact pure _
  | cons es rest ih =>
    have hstatement : Attributed env (Expr.nodeIn? es)
        (evalStatement ⟨host.recorded, env, limit⟩ es)
        (Expr.visitsEach ⟨host.recorded, env, limit⟩ 0 es) := by
      unfold evalStatement
      rw [evalLast_eq]
      exact (row es 0 fun _ _ => rfl).map _
    rw [List.foldlM_cons]
    exact bind (hstatement.below (branch_first hnodes)) fun x =>
      ih (k + 1) x (branch_next hnodes)

end Attributed

/-- The host that writes the calls down comes to the same nodes. -/
theorem Engine.visits_recorded (engine : Engine) (host : Host φ σ) (env : Environment φ)
    (p : Program) (state : σ) (calls : List (Call φ)) :
    engine.visits host env p state = engine.visits host.recorded env p (state, calls) := by
  have hview : Shows Prod.fst host.recorded host := fun _ _ _ _ => rfl
  exact VisitsSeen.statements env engine.evalLimit hview 0 p.statements 0 (state, calls)

/-- The calls of a run are those of nodes it comes to, and no two of them
are those of the same one. -/
theorem Engine.exists_callers (engine : Engine) (host : Host φ σ) (env : Environment φ)
    (p : Program) (state : σ) : ∃ callers : List (Path × Call φ),
      engine.calls host env p state = callers.map Prod.snd ∧
        (callers.map Prod.fst).Subperm ((engine.visits host env p state).map Visit.path) ∧
        ∀ x ∈ callers, Makes env p.node? x.1 x.2 := by
  rw [engine.visits_recorded host env p state []]
  exact Attributed.statements p.statements 0 .undefined (fun _ _ => rfl) ⟨0, state, []⟩

end Callers

end Reckoner
