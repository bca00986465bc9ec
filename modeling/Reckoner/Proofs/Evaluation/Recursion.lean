/-
Recursions over trees that go the way of the evaluator. The evaluator is
one of them, what a tree means where nothing is counted is another, and so
are those that take notes on the way. They all go through the parts of a
node from left to right, each behind parts that have a value, and of a
choice into one arm. They differ in what they do at a node, for a name and
for a call.

So two of them keep step wherever they do at nodes, for names and for
calls, and however it is said that two actions keep step: it has to hold of
values, and of an action behind another one. It may depend on the level of
the tree, and the expressions may be those of which something is known that
is known of their parts as well.
-/
import Reckoner.Evaluator

namespace Reckoner

-- ======================================================= the recursions

/-- The expressions that an expression is made of, from left to right. -/
def Expr.parts : Expr → List Expr
  | .number _ | .text _ | .identifier _ => []
  | .binary _ left right => [left, right]
  | .conditional condition whenTrue whenFalse => [condition, whenTrue, whenFalse]
  | .call _ arguments => arguments
  | .group statement => statement

/-- A step that sees nothing but the state of the host. -/
abbrev Action (σ α : Type) := ExceptT EvalError (StateM σ) α

/-- A recursion over trees in the order of the evaluator. At a node it
knows how many others are around it. -/
structure Recursion (φ τ : Type) [HostFunction φ] where
  /-- What becomes of the action of a node. -/
  node : Nat → {α : Type} → Action τ α → Action τ α
  /-- What a name stands for. -/
  lookup : String → Value φ
  /-- A call of what a name stands for. -/
  invoke : String → List (Value φ) → Action τ (Value φ)
  expr : Nat → Expr → Action τ (Value φ)
  each : Nat → List Expr → Action τ (List (Value φ))
  last : Nat → Value φ → List Expr → Action τ (Value φ)
  number : ∀ n x, expr n (.number x) = node n (pure (.number x))
  text : ∀ n s, expr n (.text s) = node n (pure (.text s))
  identifier : ∀ n name, expr n (.identifier name) = node n (pure (lookup name))
  binary : ∀ n op left right, expr n (.binary op left right) = node n do
    let x ← expr (n + 1) left
    let y ← expr (n + 1) right
    pure (x.combine op y)
  conditional : ∀ n condition whenTrue whenFalse,
    expr n (.conditional condition whenTrue whenFalse) = node n do
      let x ← expr (n + 1) condition
      if x.isTruthy then expr (n + 1) whenTrue else expr (n + 1) whenFalse
  call : ∀ n name arguments, expr n (.call name arguments) = node n do
    let values ← each (n + 1) arguments
    invoke name values
  group : ∀ n statement, expr n (.group statement) = node n (last (n + 1) .undefined statement)
  each_nil : ∀ n, each n [] = pure []
  each_cons : ∀ n e rest, each n (e :: rest) = do
    let x ← expr n e
    let xs ← each n rest
    pure (x :: xs)
  last_nil : ∀ n x, last n x [] = pure x
  last_cons : ∀ n x e rest, last n x (e :: rest) = do
    let y ← expr n e
    last n y rest

/-- The recursion through the statements of a program, behind a value. -/
def Recursion.statements {φ τ : Type} [HostFunction φ] (R : Recursion φ τ) (x : Value φ)
    (ss : List Statement) : Action τ (Value φ) :=
  ss.foldlM (fun _ s => R.last 0 .undefined s) x

/-- The evaluator, which knows the level of a node by its counter. -/
def Evaluator.recursion {φ σ : Type} [HostFunction φ] (ev : Evaluator φ σ) :
    Recursion φ (State σ) where
  node _ := ev.nested
  lookup name := (ev.environment.get? name).getD .undefined
  invoke := ev.invoke
  expr _ := ev.evalExpr
  each _ := ev.evalEach
  last _ := ev.evalLast
  number _ _ := rfl
  text _ _ := rfl
  identifier _ _ := rfl
  binary _ _ _ _ := rfl
  conditional _ _ _ _ := rfl
  call _ _ _ := rfl
  group _ _ := rfl
  each_nil _ := rfl
  each_cons _ _ _ := rfl
  last_nil _ _ := rfl
  last_cons _ _ _ _ := rfl

-- ========================================================= keeping step

/-- What it is for the actions of two recursions to keep step, on a level
of the tree and for expressions of which something is known. -/
structure Lockstep {φ τ τ' : Type} [HostFunction φ] (R : Recursion φ τ) (R' : Recursion φ τ') where
  /-- What is known of an expression on a level. -/
  Fits : Nat → Expr → Prop
  /-- The two actions keep step on a level. -/
  Holds : {α : Type} → Nat → Action τ α → Action τ' α → Prop
  parts : ∀ {n : Nat} {e part : Expr}, Fits n e → part ∈ e.parts → Fits (n + 1) part
  pure : ∀ {n : Nat} {α : Type} (a : α), Holds n (pure a) (pure a)
  bind : ∀ {n : Nat} {α β : Type} {act : Action τ α} {act' : Action τ' α}
    {next : α → Action τ β} {next' : α → Action τ' β}, Holds n act act' →
    (∀ a, Holds n (next a) (next' a)) → Holds n (act >>= next) (act' >>= next')
  node : ∀ {n : Nat} {e : Expr} {α : Type} {act : Action τ α} {act' : Action τ' α}, Fits n e →
    Holds (n + 1) act act' → Holds n (R.node n act) (R'.node n act')
  lookup : ∀ {n : Nat} {name : String}, Fits n (.identifier name) →
    R.lookup name = R'.lookup name
  invoke : ∀ {n : Nat} {name : String} {arguments : List Expr}, Fits n (.call name arguments) →
    ∀ values, Holds (n + 1) (R.invoke name values) (R'.invoke name values)

namespace Lockstep

variable {φ τ τ' : Type} [HostFunction φ] {R : Recursion φ τ} {R' : Recursion φ τ'}
  (L : Lockstep R R')

mutual

/-- The recursions keep step through an expression. -/
theorem expr {n : Nat} (e : Expr) (h : L.Fits n e) : L.Holds n (R.expr n e) (R'.expr n e) := by
  cases e with
  | number x =>
    rw [R.number, R'.number]
    exact L.node h (L.pure _)
  | text s =>
    rw [R.text, R'.text]
    exact L.node h (L.pure _)
  | identifier name =>
    rw [R.identifier, R'.identifier, L.lookup h]
    exact L.node h (L.pure _)
  | binary op left right =>
    have hleft := expr left (L.parts h (.head _))
    have hright := expr right (L.parts h (.tail _ (.head _)))
    rw [R.binary, R'.binary]
    apply L.node h
    apply L.bind hleft
    intro x
    apply L.bind hright
    intro y
    exact L.pure _
  | conditional condition whenTrue whenFalse =>
    have hcondition := expr condition (L.parts h (.head _))
    have htrue := expr whenTrue (L.parts h (.tail _ (.head _)))
    have hfalse := expr whenFalse (L.parts h (.tail _ (.tail _ (.head _))))
    rw [R.conditional, R'.conditional]
    apply L.node h
    apply L.bind hcondition
    intro x
    split
    · exact htrue
    · exact hfalse
  | call name arguments =>
    have harguments := each arguments fun e he => L.parts h he
    rw [R.call, R'.call]
    apply L.node h
    apply L.bind harguments
    intro values
    exact L.invoke h values
  | group statement =>
    have hstatement := last .undefined statement fun e he => L.parts h he
    rw [R.group, R'.group]
    exact L.node h hstatement

/-- And through a row of them. -/
theorem each {n : Nat} (row : List Expr) (h : ∀ e ∈ row, L.Fits n e) :
    L.Holds n (R.each n row) (R'.each n row) := by
  cases row with
  | nil =>
    rw [R.each_nil, R'.each_nil]
    exact L.pure _
  | cons e rest =>
    obtain ⟨hfirst, hbehind⟩ := List.forall_mem_cons.1 h
    have he := expr e hfirst
    have hrest := each rest hbehind
    rw [R.each_cons, R'.each_cons]
    apply L.bind he
    intro x
    apply L.bind hrest
    intro xs
    exact L.pure _

/-- And through a row that has the value of the last one. -/
theorem last {n : Nat} (x : Value φ) (row : List Expr) (h : ∀ e ∈ row, L.Fits n e) :
    L.Holds n (R.last n x row) (R'.last n x row) := by
  cases row with
  | nil =>
    rw [R.last_nil, R'.last_nil]
    exact L.pure _
  | cons e rest =>
    obtain ⟨hfirst, hbehind⟩ := List.forall_mem_cons.1 h
    have he := expr e hfirst
    have hrest (y : Value φ) := last y rest hbehind
    rw [R.last_cons, R'.last_cons]
    exact L.bind he hrest

end

/-- And through the statements of a program. -/
theorem statements (x : Value φ) (ss : List Statement) (h : ∀ s ∈ ss, ∀ e ∈ s, L.Fits 0 e) :
    L.Holds 0 (R.statements x ss) (R'.statements x ss) := by
  induction ss generalizing x with
  | nil => exact L.pure x
  | cons s ss ih =>
    obtain ⟨hfirst, hbehind⟩ := List.forall_mem_cons.1 h
    unfold Recursion.statements
    rw [List.foldlM_cons, List.foldlM_cons]
    apply L.bind (L.last .undefined s hfirst)
    intro y
    exact ih y hbehind

end Lockstep

end Reckoner
