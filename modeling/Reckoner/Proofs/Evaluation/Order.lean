/-
The order of calls. The nodes of a program that are calls can be listed
from left to right, each behind the ones below it; a conditional has its
condition in the list and one of its arms. What a program calls is such a
list from its beginning: all of it if the program has a value, and
otherwise the part before the failure. A call that is refused is the next
in the list and is not made, a call that is answered with an error is the
last one made, and nothing is called behind either.

A walk shows how far its list has come. Parts that it did not come to are
listed in any way, since nothing has been decided about them.
-/
import Reckoner.Host.Builtin
import Reckoner.Proofs.Evaluation.Walk

namespace Reckoner

-- =========================================================== call nodes

/-- A node that calls this name with so many arguments. -/
abbrev CallNode := String × Nat

/-- The node that an exchange was made for. -/
def Exchange.node {φ : Type} (x : Exchange φ) : CallNode := (x.name, x.arguments.length)

mutual

/-- The call nodes of an expression, from left to right and each behind the
ones below it, with one arm of every conditional. -/
inductive Expr.Enumerates : Expr → List CallNode → Prop
  | number (x : Binary64) : Expr.Enumerates (.number x) []
  | text (s : String) : Expr.Enumerates (.text s) []
  | identifier (name : String) : Expr.Enumerates (.identifier name) []
  | binary {op : Operator} {left right : Expr} {nodes nodes' : List CallNode}
      (hleft : left.Enumerates nodes) (hright : right.Enumerates nodes') :
      Expr.Enumerates (.binary op left right) (nodes ++ nodes')
  | whenTrue {condition whenTrue whenFalse : Expr} {nodes nodes' : List CallNode}
      (hcondition : condition.Enumerates nodes) (harm : whenTrue.Enumerates nodes') :
      Expr.Enumerates (.conditional condition whenTrue whenFalse) (nodes ++ nodes')
  | whenFalse {condition whenTrue whenFalse : Expr} {nodes nodes' : List CallNode}
      (hcondition : condition.Enumerates nodes) (harm : whenFalse.Enumerates nodes') :
      Expr.Enumerates (.conditional condition whenTrue whenFalse) (nodes ++ nodes')
  | call {name : String} {arguments : List Expr} {nodes : List CallNode}
      (harguments : Expr.EnumeratesRow arguments nodes) :
      Expr.Enumerates (.call name arguments) (nodes ++ [(name, arguments.length)])
  | group {statement : List Expr} {nodes : List CallNode}
      (hstatement : Expr.EnumeratesRow statement nodes) :
      Expr.Enumerates (.group statement) nodes

/-- The call nodes of a row, one expression after the other. -/
inductive Expr.EnumeratesRow : List Expr → List CallNode → Prop
  | nil : Expr.EnumeratesRow [] []
  | cons {first : Expr} {rest : List Expr} {nodes nodes' : List CallNode}
      (hfirst : first.Enumerates nodes) (hrest : Expr.EnumeratesRow rest nodes') :
      Expr.EnumeratesRow (first :: rest) (nodes ++ nodes')

end

/-- The call nodes of a program, statement by statement. -/
def Program.Enumerates (p : Program) (nodes : List CallNode) : Prop :=
  Expr.EnumeratesRow p.statements.flatten nodes

mutual

/-- Every expression has such a list. -/
theorem Expr.exists_enumerates (e : Expr) : ∃ nodes, e.Enumerates nodes := by
  cases e with
  | number x => exact ⟨_, .number x⟩
  | text s => exact ⟨_, .text s⟩
  | identifier name => exact ⟨_, .identifier name⟩
  | binary op left right =>
    obtain ⟨nodes, hleft⟩ := left.exists_enumerates
    obtain ⟨nodes', hright⟩ := right.exists_enumerates
    exact ⟨_, .binary hleft hright⟩
  | conditional condition whenTrue whenFalse =>
    obtain ⟨nodes, hcondition⟩ := condition.exists_enumerates
    obtain ⟨nodes', harm⟩ := whenTrue.exists_enumerates
    exact ⟨_, .whenTrue hcondition harm⟩
  | call name arguments =>
    obtain ⟨nodes, harguments⟩ := Expr.exists_enumeratesRow arguments
    exact ⟨_, .call harguments⟩
  | group statement =>
    obtain ⟨nodes, hstatement⟩ := Expr.exists_enumeratesRow statement
    exact ⟨_, .group hstatement⟩

theorem Expr.exists_enumeratesRow (row : List Expr) : ∃ nodes, Expr.EnumeratesRow row nodes := by
  cases row with
  | nil => exact ⟨_, .nil⟩
  | cons first rest =>
    obtain ⟨nodes, hfirst⟩ := first.exists_enumerates
    obtain ⟨nodes', hrest⟩ := Expr.exists_enumeratesRow rest
    exact ⟨_, .cons hfirst hrest⟩

end

theorem Expr.EnumeratesRow.append {row others : List Expr} {nodes nodes' : List CallNode}
    (h : Expr.EnumeratesRow row nodes) (h' : Expr.EnumeratesRow others nodes') :
    Expr.EnumeratesRow (row ++ others) (nodes ++ nodes') := by
  induction row generalizing nodes with
  | nil =>
    cases h
    exact h'
  | cons first rest ih =>
    cases h with
    | cons hfirst hrest =>
      rw [List.append_assoc]
      exact .cons hfirst (ih hrest)

-- ================================================= cut at the first failure

section Cut

variable {φ α β : Type} {nodes : List CallNode} {made : List (Exchange φ)}

/-- Did the host answer all of these with values? -/
def Answered (made : List (Exchange φ)) : Prop := ∀ x ∈ made, ∃ value, x.answer = .ok value

/-- The calls that were made are those of the nodes, from the first to
where the outcome is a failure. -/
inductive Cut (nodes : List CallNode) : List (Exchange φ) → Except EvalError α → Prop
  | whole {made : List (Exchange φ)} {a : α} (answered : Answered made)
      (all : made.map Exchange.node = nodes) : Cut nodes made (.ok a)
  | refused {made : List (Exchange φ)} {name : String} {refusal : Refusal}
      (answered : Answered made)
      (next : ∃ count, made.map Exchange.node ++ [(name, count)] <+: nodes) :
      Cut nodes made (.error (.notCallable name refusal))
  | failed {made : List (Exchange φ)} {x : Exchange φ} {error : CallError}
      (answered : Answered made) (fails : x.answer = .error error)
      (front : (made ++ [x]).map Exchange.node <+: nodes) :
      Cut nodes (made ++ [x]) (.error (.callFailed x.name error))
  | tooDeep {made : List (Exchange φ)} {depth limit : Nat} (answered : Answered made)
      (front : made.map Exchange.node <+: nodes) :
      Cut nodes made (.error (.stackOverflow depth limit))

theorem Answered.append {made' : List (Exchange φ)} (h : Answered made) (h' : Answered made') :
    Answered (made ++ made') :=
  fun x hx => (List.mem_append.1 hx).elim (h x) (h' x)

namespace Cut

/-- Nodes behind a failure are not called. -/
theorem before {e : EvalError} (h : Cut nodes made (.error e : Except EvalError α))
    (later : List CallNode) : Cut (nodes ++ later) made (.error e : Except EvalError β) := by
  have hlater := List.prefix_append nodes later
  cases h with
  | refused answered next =>
    obtain ⟨count, hnext⟩ := next
    exact .refused answered ⟨count, hnext.trans hlater⟩
  | failed answered fails front => exact .failed answered fails (front.trans hlater)
  | tooDeep answered front => exact .tooDeep answered (front.trans hlater)

/-- Behind calls that were all answered. -/
theorem behind {a : α} {nodes' : List CallNode} {made' : List (Exchange φ)}
    {outcome : Except EvalError β} (h : Cut nodes made (.ok a)) (h' : Cut nodes' made' outcome) :
    Cut (nodes ++ nodes') (made ++ made') outcome := by
  cases h with
  | whole answered all =>
    subst all
    have hfront {ns : List CallNode} (hns : ns <+: nodes') :
        made.map Exchange.node ++ ns <+: made.map Exchange.node ++ nodes' :=
      (List.prefix_append_right_inj _).2 hns
    cases h' with
    | whole answered' all' =>
      exact .whole (answered.append answered') (by rw [List.map_append, all'])
    | refused answered' next =>
      obtain ⟨count, hnext⟩ := next
      refine .refused (answered.append answered') ⟨count, ?_⟩
      rw [List.map_append, List.append_assoc]
      exact hfront hnext
    | failed answered' fails front =>
      rw [← List.append_assoc]
      refine .failed (answered.append answered') fails ?_
      rw [List.append_assoc, List.map_append]
      exact hfront front
    | tooDeep answered' front =>
      refine .tooDeep (answered.append answered') ?_
      rw [List.map_append]
      exact hfront front

/-- Making something of the value changes nothing about the calls. -/
theorem map {outcome : Except EvalError α} (h : Cut nodes made outcome) (f : α → β) :
    Cut nodes made (outcome.map f) := by
  cases outcome with
  | error e => exact List.append_nil nodes ▸ h.before []
  | ok a =>
    cases h with
    | whole answered all => exact .whole answered all

theorem none {a : α} : Cut [] ([] : List (Exchange φ)) (.ok a) := .whole nofun rfl

/-- One call, whatever the host answered. -/
theorem one (x : Exchange φ) :
    Cut [x.node] [x] (x.answer.mapError (EvalError.callFailed x.name)) := by
  cases hanswer : x.answer with
  | error error =>
    have hfailed : Cut [x.node] ([] ++ [x])
        (.error (.callFailed x.name error) : Except EvalError (Value φ)) :=
      .failed nofun hanswer List.prefix_rfl
    exact hfailed
  | ok value =>
    refine .whole (fun y hy => ⟨value, ?_⟩) rfl
    rw [List.mem_singleton.1 hy, hanswer]

/-- A call that was refused, behind its arguments. -/
theorem then_refused {a : α} (h : Cut nodes made (.ok a)) (name : String) (count : Nat)
    (refusal : Refusal) : Cut (nodes ++ [(name, count)]) made
      (.error (.notCallable name refusal) : Except EvalError β) := by
  have hnone : Cut [(name, count)] ([] : List (Exchange φ))
      (.error (.notCallable name refusal) : Except EvalError β) :=
    .refused nofun ⟨count, List.prefix_rfl⟩
  exact List.append_nil made ▸ h.behind hnone

end Cut

end Cut

-- ============================================================ along a walk

variable {φ : Type} [HostFunction φ]

theorem Except.ok_eq_map {ε α β : Type} {outcome : Except ε α} {f : α → β} {b : β}
    (h : .ok b = outcome.map f) : ∃ a, outcome = .ok a ∧ b = f a := by
  cases outcome with
  | error e => cases h
  | ok a =>
    cases h
    exact ⟨a, rfl, rfl⟩

section Rows

variable {env : Environment φ} {limit depth : Nat} {made : List (Exchange φ)}
  {values : List (Value φ)}

/-- A row has values if its first expression has one and the others have
them. -/
theorem Expr.WalkRow.cons_ok {first : Expr} {rest : List Expr}
    (h : Expr.WalkRow env limit depth (first :: rest) made (.ok values)) :
    ∃ before behind x xs, made = before ++ behind ∧ values = x :: xs ∧
      first.Walk env limit depth before (.ok x) ∧
      Expr.WalkRow env limit depth rest behind (.ok xs) := by
  rcases h.cons_inv with
    ⟨e, hfailed, -⟩ | ⟨before, behind, x, result, hmade, hvalues, hfirst, hrest⟩
  · cases hfailed
  · obtain ⟨xs, rfl, rfl⟩ := Except.ok_eq_map hvalues
    exact ⟨before, behind, x, xs, hmade, rfl, hfirst, hrest⟩

theorem Program.WalkStatements.cons_ok {s : Statement} {rest : List Statement}
    (h : Program.WalkStatements env limit (s :: rest) made (.ok values)) :
    ∃ before behind xs others, made = before ++ behind ∧
      values = xs.getLastD .undefined :: others ∧ Expr.WalkRow env limit 0 s before (.ok xs) ∧
      Program.WalkStatements env limit rest behind (.ok others) := by
  generalize houtcome : Except.ok values = outcome at h
  cases h with
  | fails hfirst => cases houtcome
  | cons hfirst hrest =>
    obtain ⟨others, rfl, rfl⟩ := Except.ok_eq_map houtcome
    exact ⟨_, _, _, others, rfl, rfl, hfirst, hrest⟩

/-- There is a value for each expression of a row. -/
theorem Expr.WalkRow.length_eq {row : List Expr}
    (h : Expr.WalkRow env limit depth row made (.ok values)) : values.length = row.length := by
  induction row generalizing made values with
  | nil =>
    cases h
    rfl
  | cons first rest ih =>
    obtain ⟨_, _, x, xs, rfl, rfl, -, hrest⟩ := h.cons_ok
    rw [List.length_cons, List.length_cons, ih hrest]

/-- The last value of a row is that of its last expression. -/
theorem Expr.WalkRow.getLastD_eq {row : List Expr} {last : Expr}
    (h : Expr.WalkRow env limit depth (row ++ [last]) made (.ok values)) (d : Value φ) :
    ∃ before own, made = before ++ own ∧
      last.Walk env limit depth own (.ok (values.getLastD d)) := by
  induction row generalizing made values d with
  | nil =>
    obtain ⟨own, _, x, _, rfl, rfl, hlast, hnil⟩ := h.cons_ok
    cases hnil
    exact ⟨[], own, List.append_nil own, hlast⟩
  | cons first rest ih =>
    obtain ⟨front, _, x, xs, rfl, rfl, -, hrest⟩ := h.cons_ok
    obtain ⟨before, own, rfl, hlast⟩ := ih hrest x
    exact ⟨front ++ before, own, (List.append_assoc ..).symm, by rwa [List.getLastD_cons]⟩

/-- The last value of some statements is the last one of the last of
them. -/
theorem Program.WalkStatements.getLastD_eq {ss : List Statement} {s : Statement}
    (h : Program.WalkStatements env limit (ss ++ [s]) made (.ok values)) (d : Value φ) :
    ∃ before own xs, made = before ++ own ∧ Expr.WalkRow env limit 0 s own (.ok xs) ∧
      values.getLastD d = xs.getLastD .undefined := by
  induction ss generalizing made values d with
  | nil =>
    obtain ⟨own, _, xs, _, rfl, rfl, hlast, hnil⟩ := h.cons_ok
    cases hnil
    exact ⟨[], own, xs, List.append_nil own, hlast, rfl⟩
  | cons first rest ih =>
    obtain ⟨front, _, ys, others, rfl, rfl, -, hrest⟩ := h.cons_ok
    obtain ⟨before, own, xs, rfl, hlast, hvalue⟩ := ih hrest (ys.getLastD .undefined)
    exact ⟨front ++ before, own, xs, (List.append_assoc ..).symm, hlast,
      by rw [List.getLastD_cons, hvalue]⟩

/-- The value of a program is that of the last expression of its last
statement. -/
theorem Program.Walk.value_eq {p : Program} {value : Value φ}
    (h : p.Walk env limit made (.ok value)) {ss : List Statement} {row : List Expr} {last : Expr}
    (hlast : p.statements = ss ++ [row ++ [last]]) :
    ∃ before own, made = before ++ own ∧ last.Walk env limit 0 own (.ok value) := by
  generalize houtcome : Except.ok value = outcome at h
  obtain ⟨hstatements⟩ := h
  obtain ⟨values, rfl, rfl⟩ := Except.ok_eq_map houtcome
  rw [hlast] at hstatements
  obtain ⟨before, own, xs, rfl, hrow, hvalue⟩ := hstatements.getLastD_eq .undefined
  obtain ⟨before', own', rfl, hwalk⟩ := hrow.getLastD_eq .undefined
  refine ⟨before ++ before', own', (List.append_assoc ..).symm, ?_⟩
  rw [← houtcome, hvalue]
  exact hwalk

end Rows

mutual

/-- The calls of a walk are those of a list of the call nodes, cut at the
failure. -/
theorem Expr.Walk.cut {env : Environment φ} {limit depth : Nat} {e : Expr}
    {made : List (Exchange φ)} {outcome : Except EvalError (Value φ)}
    (h : e.Walk env limit depth made outcome) :
    ∃ nodes, e.Enumerates nodes ∧ Cut nodes made outcome := by
  rcases h.inv with ⟨full, rfl, rfl⟩ | ⟨room, inside⟩
  · obtain ⟨nodes, hnodes⟩ := e.exists_enumerates
    exact ⟨nodes, hnodes, .tooDeep nofun List.nil_prefix⟩
  cases e with
  | number x =>
    cases inside
    exact ⟨_, .number x, .none⟩
  | text s =>
    cases inside
    exact ⟨_, .text s, .none⟩
  | identifier name =>
    cases inside
    exact ⟨_, .identifier name, .none⟩
  | binary op left right =>
    rcases inside.binary_inv with ⟨e, rfl, hleft⟩ | ⟨before, behind, x, _, rfl, rfl, hleft, hright⟩
    · -- the right operand was not come to, so any list of it will do
      obtain ⟨nodes, hnodes, hcut⟩ := hleft.cut
      obtain ⟨later, hlater⟩ := right.exists_enumerates
      exact ⟨_, .binary hnodes hlater, hcut.before later⟩
    · obtain ⟨nodes, hnodes, hcut⟩ := hleft.cut
      obtain ⟨nodes', hnodes', hcut'⟩ := hright.cut
      exact ⟨_, .binary hnodes hnodes', hcut.behind (hcut'.map _)⟩
  | conditional condition whenTrue whenFalse =>
    rcases inside.conditional_inv with
      ⟨e, rfl, hcondition⟩ | ⟨before, behind, x, rfl, hcondition, ⟨-, harm⟩ | ⟨-, harm⟩⟩
    · obtain ⟨nodes, hnodes, hcut⟩ := hcondition.cut
      obtain ⟨later, hlater⟩ := whenTrue.exists_enumerates
      exact ⟨_, .whenTrue hnodes hlater, hcut.before later⟩
    · obtain ⟨nodes, hnodes, hcut⟩ := hcondition.cut
      obtain ⟨nodes', hnodes', hcut'⟩ := harm.cut
      exact ⟨_, .whenTrue hnodes hnodes', hcut.behind hcut'⟩
    · obtain ⟨nodes, hnodes, hcut⟩ := hcondition.cut
      obtain ⟨nodes', hnodes', hcut'⟩ := harm.cut
      exact ⟨_, .whenFalse hnodes hnodes', hcut.behind hcut'⟩
  | call name arguments =>
    rcases inside.call_inv with ⟨e, rfl, harguments⟩ | ⟨values, refusal, rfl, harguments, -⟩ |
      ⟨before, f, values, answer, rfl, rfl, harguments, -, -⟩
    · obtain ⟨nodes, hnodes, hcut⟩ := harguments.cut
      exact ⟨_, .call hnodes, hcut.before _⟩
    · obtain ⟨nodes, hnodes, hcut⟩ := harguments.cut
      exact ⟨_, .call hnodes, hcut.then_refused name _ refusal⟩
    · obtain ⟨nodes, hnodes, hcut⟩ := harguments.cut
      refine ⟨_, .call hnodes, ?_⟩
      rw [← harguments.length_eq]
      exact hcut.behind (.one ⟨name, f, values, answer⟩)
  | group statement =>
    obtain ⟨result, rfl, hstatement⟩ := inside.group_inv
    obtain ⟨nodes, hnodes, hcut⟩ := hstatement.cut
    exact ⟨nodes, .group hnodes, hcut.map _⟩

theorem Expr.WalkRow.cut {env : Environment φ} {limit depth : Nat} {row : List Expr}
    {made : List (Exchange φ)} {outcome : Except EvalError (List (Value φ))}
    (h : Expr.WalkRow env limit depth row made outcome) :
    ∃ nodes, Expr.EnumeratesRow row nodes ∧ Cut nodes made outcome := by
  cases row with
  | nil =>
    cases h
    exact ⟨_, .nil, .none⟩
  | cons first rest =>
    rcases h.cons_inv with ⟨e, rfl, hfirst⟩ | ⟨before, behind, x, _, rfl, rfl, hfirst, hrest⟩
    · obtain ⟨nodes, hnodes, hcut⟩ := hfirst.cut
      obtain ⟨later, hlater⟩ := Expr.exists_enumeratesRow rest
      exact ⟨_, .cons hnodes hlater, hcut.before later⟩
    · obtain ⟨nodes, hnodes, hcut⟩ := hfirst.cut
      obtain ⟨nodes', hnodes', hcut'⟩ := hrest.cut
      exact ⟨_, .cons hnodes hnodes', hcut.behind (hcut'.map _)⟩

end

theorem Program.WalkStatements.cut {env : Environment φ} {limit : Nat} {ss : List Statement}
    {made : List (Exchange φ)} {outcome : Except EvalError (List (Value φ))}
    (h : Program.WalkStatements env limit ss made outcome) :
    ∃ nodes, Expr.EnumeratesRow ss.flatten nodes ∧ Cut nodes made outcome := by
  -- the statements in a row are one row of expressions to be listed
  induction h with
  | nil => exact ⟨_, .nil, .none⟩
  | @fails s rest _ _ hfirst =>
    obtain ⟨nodes, hnodes, hcut⟩ := hfirst.cut
    obtain ⟨later, hlater⟩ := Expr.exists_enumeratesRow rest.flatten
    exact ⟨_, hnodes.append hlater, hcut.before later⟩
  | cons hfirst hrest ih =>
    obtain ⟨nodes, hnodes, hcut⟩ := hfirst.cut
    obtain ⟨nodes', hnodes', hcut'⟩ := ih
    exact ⟨_, hnodes.append hnodes', hcut.behind (hcut'.map _)⟩

/-- The calls of a program are those of its call nodes, up to the one that
fails. -/
theorem Program.Walk.cut {env : Environment φ} {limit : Nat} {p : Program}
    {made : List (Exchange φ)} {outcome : Except EvalError (Value φ)}
    (h : p.Walk env limit made outcome) : ∃ nodes, p.Enumerates nodes ∧ Cut nodes made outcome := by
  obtain ⟨hstatements⟩ := h
  obtain ⟨nodes, hnodes, hcut⟩ := hstatements.cut
  exact ⟨nodes, hnodes, hcut.map _⟩

/-- What the engine does with a program is a walk that its host bears out,
and the only one; the calls are those in its record. They are the call
nodes of the program in order, up to the failure if there is one. A value
without a failure is that of the last expression. -/
theorem Engine.run_walks {σ : Type} (engine : Engine) (host : Host φ σ) (env : Environment φ)
    (p : Program) (state : σ) : ∃ made,
      p.Walk env engine.evalLimit made (engine.run host env p state).1 ∧
      Replays host env state made (engine.run host env p state).2 ∧
      engine.calls host env p state = made.map Exchange.call ∧
      (∃ nodes, p.Enumerates nodes ∧ Cut nodes made (engine.run host env p state).1) ∧
      (∀ value ss row last, (engine.run host env p state).1 = .ok value →
        p.statements = ss ++ [row ++ [last]] → ∃ before own, made = before ++ own ∧
          last.Walk env engine.evalLimit 0 own (.ok value)) ∧
      ∀ made' outcome state', p.Walk env engine.evalLimit made' outcome →
        Replays host env state made' state' → engine.run host env p state = (outcome, state') ∧
          made'.map Exchange.call = made.map Exchange.call := by
  obtain ⟨made, hwalk, hreplay, hcalls⟩ := engine.exists_walk host env p state
  refine ⟨made, hwalk, hreplay, hcalls, hwalk.cut, ?_, ?_⟩
  · intro value ss row last hvalue hlast
    rw [hvalue] at hwalk
    exact hwalk.value_eq hlast
  · intro made' outcome state' hwalk' hreplay'
    obtain ⟨hrun, hcalls'⟩ := hwalk'.runs hreplay'
    exact ⟨hrun, hcalls'.symm.trans hcalls⟩

/-- The choice `count() ? fail() : count("a")`. -/
def countingChoice : Expr :=
  .conditional (.call "count" []) (.call "fail" []) (.call "count" [.text "a"])

/-- The program `count(1, count()); "a", count() ? fail() : count("a");`. -/
def countingProgram : Program :=
  ⟨[[.call "count" [.number .one, .call "count" []]], [.text "a", countingChoice]]⟩

def countingNames : Environment Builtin :=
  Environment.empty.registerFunction ⟨0, "count", .any, .count⟩

/-- The inner call comes first, and the arm that is not chosen is not
called. The value is that of the choice. -/
theorem Engine.run_walks_counting : ∃ made value,
    countingProgram.Walk countingNames 1000 made (.ok value) ∧
      made.map (fun x => x.arguments.length) = [0, 2, 0, 1] ∧
      ∃ before own, made = before ++ own ∧
        countingChoice.Walk countingNames 1000 0 own (.ok value) := by
  obtain ⟨made, hwalk, -, hcalls, -, hvalue, -⟩ :=
    Engine.run_walks default (Builtin.host 1) countingNames countingProgram .empty
  have hlengths : ((default : Engine).calls (Builtin.host 1) countingNames countingProgram
      .empty).map (fun call => call.2.length) = [0, 2, 0, 1] := by decide +kernel
  have hok : ((default : Engine).run (Builtin.host 1) countingNames countingProgram
      .empty).1.isOk = true := by decide +kernel
  generalize (Engine.run default (Builtin.host 1) countingNames countingProgram .empty).1 = outcome
    at hwalk hvalue hok
  cases outcome with
  | error e => cases hok
  | ok value =>
    have hlast : countingProgram.statements
        = countingProgram.statements.take 1 ++ [[.text "a"] ++ [countingChoice]] := rfl
    refine ⟨made, value, hwalk, ?_, hvalue value _ _ _ rfl hlast⟩
    rw [hcalls, List.map_map] at hlengths
    exact hlengths

end Reckoner
