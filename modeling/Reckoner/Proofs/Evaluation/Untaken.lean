/-
What evaluation does not come to does not matter. Any nodes of a program
may be replaced by other expressions, however large, as long as none of
them is opened in the run: the arms that are not chosen, everything behind
a failure, and the node itself that is refused at the limit. The outcome,
the calls and the state of the host stay what they were.

The two runs are compared part by part, from the same state. A part comes
to the same outcome and leaves the same state in both, so what is behind
it starts from the same state again, or does not start in both.

The visits are all that can be spared in this way. Up to a node that is
come to, nothing has changed when that node alone is replaced; so
evaluation comes to what is in its place, in the same state, and if that
fails the run fails.
-/
import Reckoner.Proofs.Evaluation.Callers

namespace Reckoner

open Evaluator

-- ======================================================== replacing nodes

/-- Which nodes are replaced, and by what. -/
abbrev Replacement := Path → Option Expr

/-- The replacement of nodes within the branch with this number. -/
def Replacement.below (r : Replacement) (k : Nat) : Replacement := fun path => r (k :: path)

mutual

/-- The tree with other expressions in place of some nodes. What stands
below a node that is replaced goes with it. -/
def Expr.replace (r : Replacement) (e : Expr) : Expr :=
  match r [] with
  | some other => other
  | none =>
    match e with
    | .number x => .number x
    | .text s => .text s
    | .identifier name => .identifier name
    | .binary op left right => .binary op (left.replace (r.below 0)) (right.replace (r.below 1))
    | .conditional condition whenTrue whenFalse =>
      .conditional (condition.replace (r.below 0)) (whenTrue.replace (r.below 1))
        (whenFalse.replace (r.below 2))
    | .call name arguments => .call name (Expr.replaceEach r 0 arguments)
    | .group statement => .group (Expr.replaceEach r 0 statement)

/-- The same for expressions in a row, the first of which has this
number. -/
def Expr.replaceEach (r : Replacement) (k : Nat) : List Expr → List Expr
  | [] => []
  | e :: rest => e.replace (r.below k) :: Expr.replaceEach r (k + 1) rest

end

/-- The same for statements. -/
def Program.replaceEach (r : Replacement) (k : Nat) : List Statement → List Statement
  | [] => []
  | row :: rest => Expr.replaceEach (r.below k) 0 row :: Program.replaceEach r (k + 1) rest

/-- The program with some of its nodes replaced. -/
def Program.replace (r : Replacement) (p : Program) : Program :=
  ⟨Program.replaceEach r 0 p.statements⟩

-- ========================================================= what is spared

/-- None of these nodes is replaced, but for those that are refused at the
limit. -/
def Spares (r : Replacement) (limit : Nat) (vs : List Visit) : Prop :=
  ∀ v ∈ vs, v.depth < limit → r v.path = none

namespace Spares

variable {φ σ α : Type} {r : Replacement} {limit k : Nat} {vs later : List Visit}

theorem left (h : Spares r limit (vs ++ later)) : Spares r limit vs :=
  fun v hv => h v (List.mem_append_left later hv)

theorem right (h : Spares r limit (vs ++ later)) : Spares r limit later :=
  fun v hv => h v (List.mem_append_right vs hv)

/-- The part of a replacement that is below a node spares there what the
whole spares. -/
theorem below (h : Spares r limit (vs.map (Visit.below k))) : Spares (r.below k) limit vs :=
  fun v hv => h (v.below k) (List.mem_map_of_mem hv)

/-- A node that is opened is spared, and so is what is come to below it. -/
theorem visiting {ev : Evaluator φ σ} {inside : State σ → List Visit} {s : State σ}
    (h : Spares r ev.limit (ev.visiting inside s)) (room : s.depth < ev.limit) :
    r [] = none ∧ Spares r ev.limit (inside { s with depth := s.depth + 1 }) := by
  refine ⟨h ⟨[], s.depth⟩ List.mem_cons_self room, fun v hv => h v (List.mem_cons_of_mem _ ?_)⟩
  rwa [if_neg (Nat.not_le_of_lt room)]

end Spares

-- ======================================================= the two runs

namespace Evaluator

variable {φ σ α β : Type}

/-- Behind steps that do the same, the same is done. -/
theorem bind_eq_bind {step step' : Step σ α} {next next' : α → Step σ β} {s : State σ}
    (h : step' s = step s) (hnext : ∀ a mid, step s = (.ok a, mid) → next' a mid = next a mid) :
    (step' >>= next') s = (step >>= next) s := by
  rw [step_bind, step_bind, h]
  rcases hstep : step s with ⟨e | a, mid⟩
  · rfl
  · exact hnext a mid hstep

/-- Two nodes do the same if their steps do the same a level deeper. -/
theorem nested_eq_nested {ev : Evaluator φ σ} {step step' : Step σ α} {s : State σ}
    (h : step' { s with depth := s.depth + 1 } = step { s with depth := s.depth + 1 }) :
    ev.nested step' s = ev.nested step s := by
  unfold nested
  rw [h]

variable [HostFunction φ]

/-- A node is refused at the limit whatever it is. -/
theorem evalExpr_full {ev : Evaluator φ σ} {s : State σ} (full : ev.limit ≤ s.depth) (e : Expr) :
    ev.evalExpr e s = (.error (.stackOverflow s.depth ev.limit), s) := by
  cases e <;> exact Runs.full full _

end Evaluator

section Replace

variable {φ σ : Type} [HostFunction φ] {ev : Evaluator φ σ}

mutual

/-- An expression is evaluated alike where the nodes that are opened are
spared. -/
theorem Expr.evalExpr_replace {r : Replacement} (e : Expr) {s : State σ}
    (h : Spares r ev.limit (e.visits ev s)) : ev.evalExpr (e.replace r) s = ev.evalExpr e s := by
  by_cases full : ev.limit ≤ s.depth
  · rw [evalExpr_full full, evalExpr_full full]
  have room := Nat.lt_of_not_le full
  cases e with
  | number x =>
    obtain ⟨hself, -⟩ := h.visiting room
    rw [Expr.replace, hself]
  | text t =>
    obtain ⟨hself, -⟩ := h.visiting room
    rw [Expr.replace, hself]
  | identifier name =>
    obtain ⟨hself, -⟩ := h.visiting room
    rw [Expr.replace, hself]
  | binary op left right =>
    obtain ⟨hself, hinside⟩ := h.visiting room
    rw [Expr.replace, hself]
    refine nested_eq_nested (bind_eq_bind (left.evalExpr_replace hinside.left.below)
      fun x mid hleft => bind_eq_bind (right.evalExpr_replace ?_) fun _ _ _ => rfl)
    have hright := hinside.right
    rw [hleft] at hright
    exact hright.below
  | conditional condition whenTrue whenFalse =>
    obtain ⟨hself, hinside⟩ := h.visiting room
    rw [Expr.replace, hself]
    refine nested_eq_nested (bind_eq_bind (condition.evalExpr_replace hinside.left.below)
      fun x mid hcondition => ?_)
    have harm := hinside.right
    rw [hcondition] at harm
    dsimp only [visitsAfter] at harm ⊢
    by_cases htruthy : x.isTruthy = true
    · rw [if_pos htruthy] at harm
      rw [if_pos htruthy, if_pos htruthy]
      exact whenTrue.evalExpr_replace harm.below
    · rw [if_neg htruthy] at harm
      rw [if_neg htruthy, if_neg htruthy]
      exact whenFalse.evalExpr_replace harm.below
  | call name arguments =>
    obtain ⟨hself, hinside⟩ := h.visiting room
    rw [Expr.replace, hself]
    exact nested_eq_nested (bind_eq_bind (Expr.evalEach_replace arguments hinside)
      fun _ _ _ => rfl)
  | group statement =>
    obtain ⟨hself, hinside⟩ := h.visiting room
    rw [Expr.replace, hself]
    refine nested_eq_nested ?_
    rw [evalLast_eq, evalLast_eq]
    exact bind_eq_bind (Expr.evalEach_replace statement hinside) fun _ _ _ => rfl

theorem Expr.evalEach_replace {r : Replacement} {k : Nat} (row : List Expr) {s : State σ}
    (h : Spares r ev.limit (Expr.visitsEach ev k row s)) :
    ev.evalEach (Expr.replaceEach r k row) s = ev.evalEach row s := by
  cases row with
  | nil => rfl
  | cons e rest =>
    refine bind_eq_bind (e.evalExpr_replace h.left.below) fun x mid hfirst =>
      bind_eq_bind (Expr.evalEach_replace rest ?_) fun _ _ _ => rfl
    have hrest := h.right
    rw [hfirst] at hrest
    exact hrest

end

theorem Expr.evalStatement_replace {r : Replacement} (row : Statement) {s : State σ}
    (h : Spares r ev.limit (Expr.visitsEach ev 0 row s)) :
    ev.evalStatement (Expr.replaceEach r 0 row) s = ev.evalStatement row s := by
  unfold evalStatement
  rw [evalLast_eq, evalLast_eq]
  exact bind_eq_bind (Expr.evalEach_replace row h) fun _ _ _ => rfl

/-- Replacing what is not come to does not change what a program does. -/
theorem Program.evalProgram_replace {r : Replacement} (p : Program) {s : State σ}
    (h : Spares r ev.limit (p.visits ev s)) :
    ev.evalProgram (p.replace r) s = ev.evalProgram p s := by
  suffices ∀ (ss : List Statement) (k : Nat) (last : Value φ) (s : State σ),
      Spares r ev.limit (Program.visitsEach ev k ss s) →
      (Program.replaceEach r k ss).foldlM (fun _ row => ev.evalStatement row) last s
        = ss.foldlM (fun _ row => ev.evalStatement row) last s from
    this p.statements 0 .undefined s h
  intro ss
  induction ss with
  | nil => exact fun _ _ _ _ => rfl
  | cons row rest ih =>
    intro k last s h
    rw [Program.replaceEach, List.foldlM_cons, List.foldlM_cons]
    refine bind_eq_bind (Expr.evalStatement_replace row h.left.below) fun x mid hfirst => ?_
    have hrest := h.right
    rw [hfirst] at hrest
    exact ih (k + 1) x mid hrest

end Replace

-- ============================================== what is come to matters

/-- One node is replaced. -/
def Replacement.one (path : Path) (other : Expr) : Replacement :=
  fun place => if place = path then some other else none

theorem Replacement.one_below {path : Path} {other : Expr} {k : Nat} :
    (one (k :: path) other).below k = one path other := by
  funext place
  simp [one, below]

/-- The other branches are as they were. -/
theorem Spares.beside {path : Path} {other : Expr} {j k limit : Nat} {vs : List Visit}
    (hne : j ≠ k) : Spares ((Replacement.one (k :: path) other).below j) limit vs :=
  fun _ _ _ => if_neg fun heq => hne (List.cons.inj heq).1

theorem Expr.replace_root {r : Replacement} {other : Expr} (h : r [] = some other) (e : Expr) :
    e.replace r = other := by
  cases e <;> rw [Expr.replace, h]

namespace Evaluator

/-- The step fails with this error. -/
def Fails {σ α : Type} (step : Step σ α) (e : EvalError) (s : State σ) : Prop :=
  (step s).1 = .error e

namespace Fails

variable {φ σ α β : Type} {step : Step σ α} {next : α → Step σ β} {e : EvalError} {s : State σ}

/-- What fails in its first step fails. -/
theorem first (h : Fails step e s) : Fails (step >>= next) e s := by
  unfold Fails at h ⊢
  rw [step_bind]
  rcases hstep : step s with ⟨e' | a, mid⟩
  · rw [hstep] at h
    cases h
    rfl
  · rw [hstep] at h
    cases h

theorem behind {a : α} {mid : State σ} (hstep : step s = (.ok a, mid)) (h : Fails (next a) e mid) :
    Fails (step >>= next) e s := by
  unfold Fails
  rw [step_bind, hstep]
  exact h

theorem nested {ev : Evaluator φ σ} (room : s.depth < ev.limit)
    (h : Fails step e { s with depth := s.depth + 1 }) : Fails (ev.nested step) e s := by
  unfold Fails Evaluator.nested
  rw [if_neg (Nat.not_le_of_lt room)]
  exact h

end Fails

end Evaluator

section Visited

variable {φ σ : Type} [HostFunction φ] {ev : Evaluator φ σ} {other : Expr} {error : EvalError}

/-- The node that is come to is the root, or it is one below it and the
root is opened and not replaced. -/
theorem Evaluator.Fails.visited {v : Visit} {e : Expr} {inside : State σ → List Visit} {s : State σ}
    (hother : ∀ state, Fails (ev.evalExpr other) error ⟨v.depth, state⟩)
    (hv : v ∈ e.visits ev s) (hvisits : e.visits ev s = ev.visiting inside s)
    (hinside : s.depth < ev.limit → Replacement.one v.path other [] = none →
      v ∈ inside { s with depth := s.depth + 1 } →
        Fails (ev.evalExpr (e.replace (.one v.path other))) error s) :
    Fails (ev.evalExpr (e.replace (.one v.path other))) error s := by
  have hordered : InOrder (e.visits ev s) := InOrderFrom.expr e s
  rw [hvisits] at hv hordered
  rcases List.mem_cons.1 hv with rfl | hv
  · rw [Expr.replace_root (if_pos rfl)]
    exact hother s.host
  · have hlt : [] < v.path := List.rel_of_pairwise_cons hordered hv
    have hroot : Replacement.one v.path other [] = none := by
      refine if_neg fun heq => ?_
      rw [← heq] at hlt
      exact List.lt_irrefl _ hlt
    split at hv
    · cases hv
    · next hroom => exact hinside (Nat.lt_of_not_le hroom) hroot hv

/-- A node of a branch is come to below the root of the branch. -/
theorem Evaluator.Fails.below {v : Visit} {k : Nat} {e : Expr} {s : State σ}
    (hother : ∀ state, Fails (ev.evalExpr other) error ⟨v.depth, state⟩)
    (hv : v ∈ (e.visits ev s).map (.below k))
    (h : ∀ w : Visit, (∀ state, Fails (ev.evalExpr other) error ⟨w.depth, state⟩) →
      w ∈ e.visits ev s → Fails (ev.evalExpr (e.replace (.one w.path other))) error s) :
    Fails (ev.evalExpr (e.replace ((Replacement.one v.path other).below k))) error s := by
  obtain ⟨w, hw, rfl⟩ := List.mem_map.1 hv
  rw [Visit.below, Replacement.one_below]
  exact h w hother hw

mutual

/-- What fails in place of a node that is come to fails the expression. -/
theorem Expr.evalExpr_visited {v : Visit} (e : Expr) {s : State σ}
    (hother : ∀ state, Fails (ev.evalExpr other) error ⟨v.depth, state⟩)
    (hv : v ∈ e.visits ev s) : Fails (ev.evalExpr (e.replace (.one v.path other))) error s := by
  cases e with
  | number x => exact .visited hother hv rfl fun _ _ => nofun
  | text t => exact .visited hother hv rfl fun _ _ => nofun
  | identifier name => exact .visited hother hv rfl fun _ _ => nofun
  | binary op left right =>
    refine .visited hother hv rfl fun room hself hv => ?_
    rw [Expr.replace, hself]
    refine .nested room ?_
    rcases List.mem_append.1 hv with hv | hv
    · exact .first (.below hother hv fun _ => Expr.evalExpr_visited left)
    · obtain ⟨x, mid, hleft, hv⟩ := mem_visitsAfter hv
      have hright := Fails.below hother hv fun _ => Expr.evalExpr_visited right
      obtain ⟨w, -, rfl⟩ := List.mem_map.1 hv
      exact .behind ((left.evalExpr_replace (.beside (by decide))).trans hleft) (.first hright)
  | conditional condition whenTrue whenFalse =>
    refine .visited hother hv rfl fun room hself hv => ?_
    rw [Expr.replace, hself]
    refine .nested room ?_
    rcases List.mem_append.1 hv with hv | hv
    · exact .first (.below hother hv fun _ => Expr.evalExpr_visited condition)
    · obtain ⟨x, mid, hcondition, hv⟩ := mem_visitsAfter hv
      by_cases htruthy : x.isTruthy = true
      · rw [if_pos htruthy] at hv
        have harm := Fails.below hother hv fun _ => Expr.evalExpr_visited whenTrue
        obtain ⟨w, -, rfl⟩ := List.mem_map.1 hv
        refine .behind ((condition.evalExpr_replace (.beside (by decide))).trans hcondition) ?_
        rwa [if_pos htruthy]
      · rw [if_neg htruthy] at hv
        have harm := Fails.below hother hv fun _ => Expr.evalExpr_visited whenFalse
        obtain ⟨w, -, rfl⟩ := List.mem_map.1 hv
        refine .behind ((condition.evalExpr_replace (.beside (by decide))).trans hcondition) ?_
        rwa [if_neg htruthy]
  | call name arguments =>
    refine .visited hother hv rfl fun room hself hv => ?_
    rw [Expr.replace, hself]
    exact .nested room (.first (Expr.evalEach_visited 0 arguments hother hv))
  | group statement =>
    refine .visited hother hv rfl fun room hself hv => ?_
    rw [Expr.replace, hself]
    refine .nested room ?_
    rw [evalLast_eq]
    exact .first (Expr.evalEach_visited 0 statement hother hv)

theorem Expr.evalEach_visited {v : Visit} (k : Nat) (row : List Expr) {s : State σ}
    (hother : ∀ state, Fails (ev.evalExpr other) error ⟨v.depth, state⟩)
    (hv : v ∈ Expr.visitsEach ev k row s) :
    Fails (ev.evalEach (Expr.replaceEach (.one v.path other) k row)) error s := by
  cases row with
  | nil => cases hv
  | cons e rest =>
    rcases List.mem_append.1 hv with hv | hv
    · exact .first (.below hother hv fun _ => Expr.evalExpr_visited e)
    · obtain ⟨x, mid, hfirst, hv⟩ := mem_visitsAfter hv
      obtain ⟨j, path, hj, hpath⟩ := (InOrderFrom.row (k + 1) rest mid).branches v hv
      have hrest := Expr.evalEach_visited (k + 1) rest hother hv
      -- the node is in a later branch, and the first one is spared
      rw [hpath] at hrest ⊢
      exact .behind ((e.evalExpr_replace (.beside (Nat.ne_of_lt hj))).trans hfirst) (.first hrest)

end

theorem Expr.evalStatement_visited {v : Visit} (row : Statement) {s : State σ}
    (hother : ∀ state, Fails (ev.evalExpr other) error ⟨v.depth, state⟩)
    (hv : v ∈ Expr.visitsEach ev 0 row s) :
    Fails (ev.evalStatement (Expr.replaceEach (.one v.path other) 0 row)) error s := by
  unfold evalStatement
  rw [evalLast_eq]
  exact .first (Expr.evalEach_visited 0 row hother hv)

/-- If what is put at a visited node fails there, so does the program, and
in the same way. -/
theorem Program.evalProgram_visited {v : Visit} (p : Program) {s : State σ}
    (hother : ∀ state, Fails (ev.evalExpr other) error ⟨v.depth, state⟩)
    (hv : v ∈ p.visits ev s) : Fails (ev.evalProgram (p.replace (.one v.path other))) error s := by
  suffices ∀ (ss : List Statement) (k : Nat) (last : Value φ) (s : State σ),
      v ∈ Program.visitsEach ev k ss s →
      Fails ((Program.replaceEach (.one v.path other) k ss).foldlM
        (fun _ row => ev.evalStatement row) last) error s from
    this p.statements 0 .undefined s hv
  intro ss
  induction ss with
  | nil => exact fun _ _ _ => nofun
  | cons row rest ih =>
    intro k last s hv
    rw [Program.replaceEach, List.foldlM_cons]
    rcases List.mem_append.1 hv with hv | hv
    · obtain ⟨w, hw, rfl⟩ := List.mem_map.1 hv
      rw [Visit.below, Replacement.one_below]
      exact .first (Expr.evalStatement_visited row hother hw)
    · obtain ⟨x, mid, hfirst, hv⟩ := mem_visitsAfter hv
      obtain ⟨j, path, hj, hpath⟩ := (InOrderFrom.statements (k + 1) rest mid).branches v hv
      have hrest := ih (k + 1) x mid hv
      rw [hpath] at hrest ⊢
      exact .behind ((Expr.evalStatement_replace row (.beside (Nat.ne_of_lt hj))).trans hfirst)
        hrest

end Visited

-- ============================================================= whole runs

/-- In a run no node is come to twice, and no two calls are made for the
same node. What is come to is in the program, and it matters: if another
expression in place of such a node fails there, whatever the state of the
host, the run fails with its error. No other node matters: if none of those
that are opened is replaced, the outcome, the state that is left of the
host and the calls are the same, whatever is in place of the others. -/
theorem Engine.run_untaken {φ σ : Type} [HostFunction φ] (engine : Engine) (host : Host φ σ)
    (env : Environment φ) (p : Program) (state : σ) :
    ((engine.visits host env p state).map Visit.path).Nodup ∧
      (∃ callers : List (Path × Call φ),
        engine.calls host env p state = callers.map Prod.snd ∧ (callers.map Prod.fst).Nodup ∧
        ∀ x ∈ callers, (∃ v ∈ engine.visits host env p state, v.path = x.1) ∧
          Makes env p.node? x.1 x.2) ∧
      (∀ v ∈ engine.visits host env p state, (p.node? v.path).isSome = true ∧ ∀ other e,
        (∀ s, Fails (evalExpr ⟨host, env, engine.evalLimit⟩ other) e ⟨v.depth, s⟩) →
          (engine.run host env (p.replace (.one v.path other)) state).1 = .error e) ∧
      ∀ r, Spares r engine.evalLimit (engine.visits host env p state) →
        engine.run host env (p.replace r) state = engine.run host env p state ∧
          engine.calls host env (p.replace r) state = engine.calls host env p state := by
  have hnodup : ((engine.visits host env p state).map Visit.path).Nodup :=
    (InOrderFrom.statements 0 p.statements _).ordered.nodup
  refine ⟨hnodup, ?_, fun v hv => ⟨?_, fun other e hother => ?_⟩, fun r hspares => ?_⟩
  · obtain ⟨callers, hcalls, hfew, hmakes⟩ := engine.exists_callers host env p state
    have hvisited (x) (hx : x ∈ callers) :=
      List.mem_map.1 (hfew.subset (List.mem_map_of_mem hx))
    obtain ⟨paths, hpaths, hsublist⟩ := hfew
    exact ⟨callers, hcalls, hpaths.nodup (hnodup.sublist hsublist),
      fun x hx => ⟨hvisited x hx, hmakes x hx⟩⟩
  · exact VisitsWithin.program p _ v hv
  · exact p.evalProgram_visited hother hv
  · -- what is spared is so for the host that writes the calls down as well
    have hrun : engine.run host.recorded env (p.replace r) (state, [])
        = engine.run host.recorded env p (state, []) := by
      rw [engine.visits_recorded host env p state []] at hspares
      unfold Engine.run start
      rw [p.evalProgram_replace hspares]
    rw [engine.run_recorded host env p state [], engine.run_recorded host env _ state [], hrun]
    exact ⟨rfl, congrArg (fun result => result.2.2) hrun⟩

/-- Four groups, one in the other. -/
def deepGroups : Expr := .group [.group [.group [.group []]]]

/-- The program `count() ? fail() : count("a"); nobody(); count();`. -/
def choosingProgram : Program :=
  ⟨[[countingChoice], [.call "nobody" []], [.call "count" []]]⟩

/-- An engine for three nodes at once. -/
def choosingEngine : Engine := ⟨500, 3⟩

/-- Too many groups in place of the arm that is not chosen and of what is
behind the failure. -/
def hiddenGroups : Replacement :=
  fun path => if path = [0, 0, 1] ∨ path = [2, 0] then some deepGroups else none

/-- The groups do not matter there, but they do in place of the call that
fails. -/
theorem Engine.run_untaken_groups :
    choosingEngine.run (Builtin.host 1) countingNames (choosingProgram.replace hiddenGroups) .empty
        = choosingEngine.run (Builtin.host 1) countingNames choosingProgram .empty ∧
      (choosingEngine.calls (Builtin.host 1) countingNames (choosingProgram.replace hiddenGroups)
        .empty).map (fun call => call.2.length) = [0, 1] ∧
      (choosingEngine.run (Builtin.host 1) countingNames
        (choosingProgram.replace (.one [1, 0] deepGroups)) .empty).1
          = .error (.stackOverflow 3 3) := by
  obtain ⟨-, -, hmatters, hspares⟩ :=
    choosingEngine.run_untaken (Builtin.host 1) countingNames choosingProgram .empty
  have hhidden : ∀ v ∈ choosingEngine.visits (Builtin.host 1) countingNames choosingProgram .empty,
      ¬(v.path = [0, 0, 1] ∨ v.path = [2, 0]) := by decide +kernel
  have hcalls : (choosingEngine.calls (Builtin.host 1) countingNames choosingProgram
      .empty).map (fun call => call.2.length) = [0, 1] := by decide +kernel
  have hfails : ⟨[1, 0], 0⟩ ∈
      choosingEngine.visits (Builtin.host 1) countingNames choosingProgram .empty := by
    decide +kernel
  obtain ⟨hrun, hsame⟩ := hspares hiddenGroups fun v hv _ => if_neg (hhidden v hv)
  have hdeep (s : CallLog) : Fails (evalExpr ⟨Builtin.host 1, countingNames, 3⟩ deepGroups)
      (.stackOverflow 3 3) ⟨0, s⟩ := rfl
  obtain ⟨-, hother⟩ := hmatters _ hfails
  rw [← hsame] at hcalls
  exact ⟨hrun, hcalls, hother deepGroups _ hdeep⟩

end Reckoner
