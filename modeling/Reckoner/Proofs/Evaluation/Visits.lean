/-
The nodes that evaluation comes to. A node is known by the way to it from
the root, so that two nodes that look alike are still two. The visits of
an evaluation are listed along the tree, in the order in which evaluation
comes to the nodes: whether it comes to a part at all depends on what the
parts before it came to, and that is asked of the evaluator itself. Each
visit has the number of nodes that are open around it.

Two facts hold of all visits. They lead to nodes of the tree. And they are
in its order, a node before the ones below it and the rest from left to
right, so no node is visited twice.
-/
import Reckoner.Proofs.Evaluation.Walk

namespace Reckoner

-- =============================================================== nodes

/-- The way from the root of a tree to a node: the number of the branch
that is taken at each node on it. -/
abbrev Path := List Nat

namespace Expr

/-- The expressions right below an expression, from left to right. -/
def children : Expr → List Expr
  | .number _ | .text _ | .identifier _ => []
  | .binary _ left right => [left, right]
  | .conditional condition whenTrue whenFalse => [condition, whenTrue, whenFalse]
  | .call _ arguments => arguments
  | .group statement => statement

/-- The node that a way leads to. -/
def node? : Expr → Path → Option Expr
  | e, [] => some e
  | e, k :: path => e.children[k]?.bind (·.node? path)

/-- The node that a way leads to, of one of some expressions in a row. -/
def nodeIn? (row : List Expr) : Path → Option Expr
  | [] => none
  | k :: path => row[k]?.bind (·.node? path)

end Expr

/-- The node of a program that a way leads to. The way begins with the
number of the statement and that of the expression in it. -/
def Program.node? (p : Program) : Path → Option Expr
  | [] => none
  | k :: path => p.statements[k]?.bind (Expr.nodeIn? · path)

section Branches

variable {nodes : Path → Option Expr} {part : Nat → Path → Option Expr} {k : Nat}

/-- Where branches are numbered from `k`, the first is number `k`. -/
theorem branch_first (h : ∀ i path, nodes ((i + k) :: path) = part i path) (path : Path) :
    nodes (k :: path) = part 0 path := by
  rw [← h 0 path, Nat.zero_add]

/-- The branches behind it are numbered from the next number. -/
theorem branch_next (h : ∀ i path, nodes ((i + k) :: path) = part i path) (i : Nat)
    (path : Path) : nodes ((i + (k + 1)) :: path) = part (i + 1) path := by
  rw [← h (i + 1) path, Nat.add_right_comm, Nat.add_assoc]

end Branches

-- ============================================================== visits

/-- A node that evaluation comes to, and the number of nodes that are open
around it then. -/
structure Visit where
  path : Path
  depth : Nat
deriving DecidableEq

namespace Visit

/-- The visit as one of the tree whose branch with this number it was
in. -/
def below (k : Nat) (v : Visit) : Visit := ⟨k :: v.path, v.depth⟩

end Visit

namespace Evaluator

variable {φ σ α : Type}

/-- The visits behind a step, of which there are none if it fails. -/
def visitsAfter (result : Except EvalError α × State σ) (later : α → State σ → List Visit) :
    List Visit :=
  match result with
  | (.ok a, s) => later a s
  | (.error _, _) => []

/-- Visits behind a step are made if it has a value. -/
theorem mem_visitsAfter {result : Except EvalError α × State σ}
    {later : α → State σ → List Visit} {v : Visit} (hv : v ∈ visitsAfter result later) :
    ∃ a s, result = (.ok a, s) ∧ v ∈ later a s := by
  obtain ⟨e | a, s⟩ := result
  · cases hv
  · exact ⟨a, s, rfl, hv⟩

/-- A visit of a node, and the visits below it if it is opened. -/
def visiting (ev : Evaluator φ σ) (inside : State σ → List Visit) (s : State σ) : List Visit :=
  ⟨[], s.depth⟩ :: if ev.limit ≤ s.depth then [] else inside { s with depth := s.depth + 1 }

end Evaluator

open Evaluator

section Visits

variable {φ σ : Type} [HostFunction φ] (ev : Evaluator φ σ)

mutual

/-- The visits while an expression is evaluated. -/
def Expr.visits : Expr → State σ → List Visit
  | .number _ | .text _ | .identifier _ => ev.visiting fun _ => []
  | .binary _ left right => ev.visiting fun s =>
    (left.visits s).map (.below 0) ++
      visitsAfter (ev.evalExpr left s) fun _ s => (right.visits s).map (.below 1)
  | .conditional condition whenTrue whenFalse => ev.visiting fun s =>
    (condition.visits s).map (.below 0) ++
      visitsAfter (ev.evalExpr condition s) fun x s =>
        if x.isTruthy then (whenTrue.visits s).map (.below 1)
        else (whenFalse.visits s).map (.below 2)
  | .call _ arguments => ev.visiting (Expr.visitsEach 0 arguments)
  | .group statement => ev.visiting (Expr.visitsEach 0 statement)

/-- The visits while expressions in a row are evaluated, of which the
first has this number. -/
def Expr.visitsEach (k : Nat) : List Expr → State σ → List Visit
  | [], _ => []
  | e :: rest, s =>
    (e.visits s).map (.below k) ++
      visitsAfter (ev.evalExpr e s) fun _ s => Expr.visitsEach (k + 1) rest s

end

/-- The same for statements. -/
def Program.visitsEach (k : Nat) : List Statement → State σ → List Visit
  | [], _ => []
  | row :: rest, s =>
    (Expr.visitsEach ev 0 row s).map (.below k) ++
      visitsAfter (ev.evalStatement row s) fun _ s => Program.visitsEach (k + 1) rest s

/-- The visits while a program is evaluated. -/
def Program.visits (p : Program) : State σ → List Visit := Program.visitsEach ev 0 p.statements

end Visits

/-- The visits of a run, in order. -/
def Engine.visits {φ σ : Type} [HostFunction φ] (engine : Engine) (host : Host φ σ)
    (env : Environment φ) (p : Program) (state : σ) : List Visit :=
  p.visits ⟨host, env, engine.evalLimit⟩ ⟨0, state⟩

-- =========================================================== the nodes

/-- The visits are of nodes among these. -/
def VisitsWithin (nodes : Path → Option Expr) (vs : List Visit) : Prop :=
  ∀ v ∈ vs, (nodes v.path).isSome = true

namespace VisitsWithin

variable {φ σ α : Type} {ev : Evaluator φ σ} {nodes nodes' : Path → Option Expr}
  {vs ws : List Visit}

theorem nil : VisitsWithin nodes [] := fun _ hv => nomatch hv

theorem below {k : Nat} (h : VisitsWithin nodes vs)
    (hnodes : ∀ path, nodes' (k :: path) = nodes path) :
    VisitsWithin nodes' (vs.map (.below k)) := by
  intro v hv
  obtain ⟨w, hw, rfl⟩ := List.mem_map.1 hv
  show (nodes' (k :: w.path)).isSome = true
  rw [hnodes]
  exact h w hw

theorem append (hvs : VisitsWithin nodes vs) (hws : VisitsWithin nodes ws) :
    VisitsWithin nodes (vs ++ ws) :=
  fun v hv => (List.mem_append.1 hv).elim (hvs v) (hws v)

theorem after {result : Except EvalError α × State σ} {later : α → State σ → List Visit}
    (h : ∀ a s, VisitsWithin nodes (later a s)) :
    VisitsWithin nodes (visitsAfter result later) := by
  obtain ⟨e | a, s⟩ := result
  · exact nil
  · exact h a s

/-- The node itself is where the empty way leads. -/
theorem visiting {e : Expr} {inside : State σ → List Visit}
    (h : ∀ s : State σ, VisitsWithin e.node? (inside s)) (s : State σ) :
    VisitsWithin e.node? (ev.visiting inside s) := by
  intro v hv
  rcases List.mem_cons.1 hv with rfl | hv
  · rfl
  · split at hv
    · cases hv
    · exact h _ v hv

variable [HostFunction φ]

mutual

/-- An expression visits none but its own nodes. -/
theorem expr (e : Expr) (s : State σ) : VisitsWithin e.node? (e.visits ev s) := by
  cases e with
  | number x => exact visiting (fun _ => nil) s
  | text t => exact visiting (fun _ => nil) s
  | identifier name => exact visiting (fun _ => nil) s
  | binary op left right =>
    refine visiting (fun s => append (below (expr left s) fun _ => rfl) (after ?_)) s
    exact fun _ s => below (expr right s) fun _ => rfl
  | conditional condition whenTrue whenFalse =>
    refine visiting (fun s => append (below (expr condition s) fun _ => rfl)
      (after fun x s => ?_)) s
    split
    · exact below (expr whenTrue s) fun _ => rfl
    · exact below (expr whenFalse s) fun _ => rfl
  | call name arguments => exact visiting (row arguments 0 fun _ _ => rfl) s
  | group statement => exact visiting (row statement 0 fun _ _ => rfl) s

/-- The nodes of a row may be some of those of a longer one. -/
theorem row {nodes : Path → Option Expr} (es : List Expr) (k : Nat)
    (hnodes : ∀ i path, nodes ((i + k) :: path) = Expr.nodeIn? es (i :: path)) (s : State σ) :
    VisitsWithin nodes (Expr.visitsEach ev k es s) := by
  cases es with
  | nil => exact nil
  | cons e rest =>
    refine append (below (expr e s) (branch_first hnodes)) (after fun _ s => ?_)
    exact row rest (k + 1) (branch_next hnodes) s

end

theorem statements (ss : List Statement) (k : Nat)
    (hnodes : ∀ i path, nodes ((i + k) :: path) = ss[i]?.bind (Expr.nodeIn? · path))
    (s : State σ) : VisitsWithin nodes (Program.visitsEach ev k ss s) := by
  induction ss generalizing k s with
  | nil => exact nil
  | cons es rest ih =>
    have hrow : VisitsWithin (Expr.nodeIn? es) (Expr.visitsEach ev 0 es s) :=
      row es 0 (fun _ _ => rfl) s
    refine append (below hrow (branch_first hnodes)) (after fun _ s => ?_)
    exact ih (k + 1) (branch_next hnodes) s

/-- A program visits none but its own nodes. -/
theorem program (p : Program) (s : State σ) : VisitsWithin p.node? (p.visits ev s) :=
  statements p.statements 0 (fun _ _ => rfl) s

end VisitsWithin

-- ============================================================ the order

/-- Visits in the order of the tree. -/
def InOrder (vs : List Visit) : Prop := vs.Pairwise fun v w => v.path < w.path

/-- The same, and all of them in the branch with this number or in later
ones. -/
structure InOrderFrom (k : Nat) (vs : List Visit) : Prop where
  ordered : InOrder vs
  branches : ∀ v ∈ vs, ∃ j path, k ≤ j ∧ v.path = j :: path

/-- Visits in order are to different nodes. -/
theorem InOrder.nodup {vs : List Visit} (h : InOrder vs) : (vs.map Visit.path).Nodup := by
  rw [List.nodup_iff_pairwise_ne, List.pairwise_map]
  refine List.Pairwise.imp (fun {v w} hlt heq => ?_) h
  rw [heq] at hlt
  exact List.lt_irrefl _ hlt

namespace InOrderFrom

variable {φ σ α : Type} {ev : Evaluator φ σ} {k : Nat} {vs later : List Visit}

theorem nil (k : Nat) : InOrderFrom k [] := ⟨.nil, nofun⟩

/-- The visits in one branch, and those in the branches behind it. -/
theorem append (h : InOrder vs) (hlater : InOrderFrom (k + 1) later) :
    InOrderFrom k (vs.map (Visit.below k) ++ later) := by
  refine ⟨List.pairwise_append.2 ⟨?_, hlater.ordered, fun v hv w hw => ?_⟩, fun v hv => ?_⟩
  · rw [List.pairwise_map]
    exact h.imp fun hlt => List.cons_lt_cons_iff.2 (.inr ⟨rfl, hlt⟩)
  · obtain ⟨v, -, rfl⟩ := List.mem_map.1 hv
    obtain ⟨j, path, hj, hpath⟩ := hlater.branches w hw
    rw [hpath]
    exact List.cons_lt_cons_iff.2 (.inl hj)
  · rcases List.mem_append.1 hv with hv | hv
    · obtain ⟨v, -, rfl⟩ := List.mem_map.1 hv
      exact ⟨k, v.path, Nat.le_refl k, rfl⟩
    · obtain ⟨j, path, hj, hpath⟩ := hlater.branches v hv
      exact ⟨j, path, Nat.le_of_succ_le hj, hpath⟩

theorem one (h : InOrder vs) (k : Nat) : InOrderFrom k (vs.map (Visit.below k)) :=
  List.append_nil (vs.map (Visit.below k)) ▸ append h (nil (k + 1))

/-- Visits to the parts from one on are visits to those from an earlier one
on. -/
theorem mono {k' : Nat} (h : InOrderFrom k' vs) (hle : k ≤ k') : InOrderFrom k vs := by
  refine ⟨h.ordered, fun v hv => ?_⟩
  obtain ⟨j, path, hj, hpath⟩ := h.branches v hv
  exact ⟨j, path, Nat.le_trans hle hj, hpath⟩

theorem after {result : Except EvalError α × State σ} {later : α → State σ → List Visit}
    (h : ∀ a s, InOrderFrom k (later a s)) : InOrderFrom k (visitsAfter result later) := by
  obtain ⟨e | a, s⟩ := result
  · exact nil k
  · exact h a s

/-- A node is before the ones below it. -/
theorem visiting {inside : State σ → List Visit} (h : ∀ s, InOrderFrom 0 (inside s))
    (s : State σ) : InOrder (ev.visiting inside s) := by
  unfold Evaluator.visiting
  split
  · exact List.pairwise_singleton _ _
  · refine .cons (fun v hv => ?_) (h _).ordered
    obtain ⟨j, path, -, hpath⟩ := (h _).branches v hv
    rw [hpath]
    exact List.nil_lt_cons j path

variable [HostFunction φ]

mutual

/-- The visits of an expression are in order. -/
theorem expr (e : Expr) (s : State σ) : InOrder (e.visits ev s) := by
  cases e with
  | number x => exact visiting (fun _ => nil 0) s
  | text t => exact visiting (fun _ => nil 0) s
  | identifier name => exact visiting (fun _ => nil 0) s
  | binary op left right =>
    exact visiting (fun s => append (expr left s) (after fun _ s => one (expr right s) 1)) s
  | conditional condition whenTrue whenFalse =>
    refine visiting (fun s => append (expr condition s) (after fun x s => ?_)) s
    split
    · exact one (expr whenTrue s) 1
    · exact (one (expr whenFalse s) 2).mono (Nat.le_succ 1)
  | call name arguments => exact visiting (row 0 arguments) s
  | group statement => exact visiting (row 0 statement) s

theorem row (k : Nat) (es : List Expr) (s : State σ) :
    InOrderFrom k (Expr.visitsEach ev k es s) := by
  cases es with
  | nil => exact nil k
  | cons e rest => exact append (expr e s) (after fun _ s => row (k + 1) rest s)

end

theorem statements (k : Nat) (ss : List Statement) (s : State σ) :
    InOrderFrom k (Program.visitsEach ev k ss s) := by
  induction ss generalizing k s with
  | nil => exact nil k
  | cons es rest ih => exact append (row 0 es s).ordered (after fun _ s => ih (k + 1) s)

end InOrderFrom

end Reckoner
