/-
Sources put together. A source that is read ends with a semicolon, blanks
aside, and nothing runs over a semicolon: so the source behind it is split
as it is alone, only later. Its statements stand behind those of the
first, and what they nest counts for itself.

In the same way evaluation takes nothing along from one statement to the
next but the state of the host. Every run leaves the counter where it was,
and the value of a statement is dropped when another one follows.
-/
import Reckoner.Proofs.Evaluation.Order
import Reckoner.Proofs.Grammar.FirstFault
import Reckoner.Proofs.Lexing.Shift
import Reckoner.Proofs.Source.Image

namespace Reckoner

open Reckoner.Derivation Evaluator

/-- The statements of one program and then those of another. -/
instance : Append Program := ⟨fun p q => ⟨p.statements ++ q.statements⟩⟩

theorem Program.statements_append (p q : Program) :
    (p ++ q).statements = p.statements ++ q.statements := rfl

-- ============================================================= reading

namespace Derivation

/-- The tree of two programs in a row has the statements of both. -/
theorem OfProgram.tree_append (d d' : OfProgram) : (d.append d').tree = d.tree ++ d'.tree := by
  suffices (d.append d').statements = d.statements ++ d'.statements from congrArg Program.mk this
  induction d with
  | last s semicolon => rfl
  | more s semicolon rest ih => exact congrArg (s.trees :: ·) ih

/-- Statements do not nest in those before them. -/
theorem OfProgram.depth_append (d d' : OfProgram) :
    (d.append d').depth = max d.depth d'.depth := by
  induction d with
  | last s semicolon => rfl
  | more s semicolon rest ih =>
    show max s.depth (rest.append d').depth = max (max s.depth rest.depth) d'.depth
    rw [ih, Nat.max_assoc]

/-- A program ends with a semicolon. -/
theorem OfProgram.exists_getLast? (d : OfProgram) :
    ∃ place, d.yield.getLast? = some ⟨.semicolon, .symbol ';', place⟩ := by
  induction d with
  | last s semicolon => exact ⟨semicolon, List.getLast?_concat⟩
  | more s semicolon rest ih =>
    obtain ⟨place, hlast⟩ := ih
    refine ⟨place, ?_⟩
    rw [OfProgram.yield, List.getLast?_append, List.getLast?_cons, hlast]
    rfl

theorem OfProgram.statements_ne_nil (d : OfProgram) : d.tree.statements ≠ [] := by
  cases d <;> exact List.cons_ne_nil _ _

end Derivation

/-- Two sources that are read, put together, are read as their programs in
a row. -/
theorem Engine.parse_append {engine : Engine} {a b : String} {p q : Program}
    (ha : engine.parse a = .ok p) (hb : engine.parse b = .ok q) :
    engine.parse (a ++ b) = .ok (p ++ q) := by
  obtain ⟨d, hd, rfl, hdepth⟩ := Engine.exists_yield ha
  obtain ⟨d', hd', rfl, hdepth'⟩ := Engine.exists_yield hb
  obtain ⟨place, hlast⟩ := d.exists_getLast?
  have htokens := tokenize_append (b := b) hd fun t ht _ => by
    obtain rfl : _ = t := Option.some.inj (hlast.symm.trans ht)
    exact fun _ _ => rfl
  rw [hd'] at htokens
  have hmoved (t : Token) : (t.shift a.utf8ByteSize).word = t.word := rfl
  have hwords : (d.yield ++ d'.yield.map (·.shift a.utf8ByteSize)).map Token.word
      = (d.append d').yield.map Token.word := by
    simp [OfProgram.yield_append, hmoved]
  refine Engine.parse_eq_ok_iff.2 ⟨_, htokens, ?_⟩
  rw [← OfProgram.tree_append]
  apply ((d.append d').ofTokens_moved hwords engine.parseLimit).1
  rw [OfProgram.depth_append]
  omega

-- ========================================================== evaluation

section Runs

variable {φ σ : Type} [HostFunction φ] {engine : Engine} {host : Host φ σ} {env : Environment φ}

/-- The value that a statement follows does not matter to it. -/
theorem Evaluator.evalProgram_append (ev : Evaluator φ σ) (p : Program) {q : Program}
    (hq : q.statements ≠ []) :
    ev.evalProgram (p ++ q) = (ev.evalProgram p >>= fun _ => ev.evalProgram q) := by
  unfold evalProgram
  rw [Program.statements_append, List.foldlM_append]
  refine bind_congr fun value => ?_
  obtain ⟨s, rest, hs⟩ := List.exists_cons_of_ne_nil hq
  rw [hs, List.foldlM_cons, List.foldlM_cons]

theorem Engine.run_of_runs {p : Program} {outcome : Except EvalError (Value φ)} {state state' : σ}
    (h : Runs (evalProgram ⟨host, env, engine.evalLimit⟩ p) 0 state outcome state') :
    engine.run host env p state = (outcome, state') := by
  unfold Runs at h
  unfold Engine.run Evaluator.start
  rw [h]

/-- A run leaves no node open. -/
theorem Engine.runs (engine : Engine) (host : Host φ σ) (env : Environment φ) (p : Program)
    (state : σ) : Runs (evalProgram ⟨host, env, engine.evalLimit⟩ p) 0 state
      (engine.run host env p state).1 (engine.run host env p state).2 := by
  obtain ⟨made, outcome, state', hwalk, hreplay⟩ :=
    Program.exists_walkStatements host env engine.evalLimit p.statements state
  have hruns : Runs (evalProgram ⟨host, env, engine.evalLimit⟩ p) 0 state _ state' :=
    hwalk.runs .undefined hreplay
  rw [Engine.run_of_runs hruns]
  exact hruns

/-- Behind a program that fails, nothing is run; behind another one, the
rest is run from the state that it leaves. -/
theorem Engine.run_append (engine : Engine) (host : Host φ σ) (env : Environment φ) (p : Program)
    {q : Program} (hq : q.statements ≠ []) (state : σ) :
    engine.run host env (p ++ q) state = match engine.run host env p state with
      | (.error e, mid) => (.error e, mid)
      | (.ok _, mid) => engine.run host env q mid := by
  have hfirst := engine.runs host env p state
  generalize engine.run host env p state = result at hfirst ⊢
  rcases result with ⟨e | value, mid⟩
  · apply Engine.run_of_runs
    rw [evalProgram_append _ p hq]
    exact hfirst.fail _
  · apply Engine.run_of_runs
    rw [evalProgram_append _ p hq]
    exact hfirst.bind (engine.runs host env q mid)

/-- Calls are written down behind those that are there. -/
theorem Engine.run_recorded_eq (p : Program) (state : σ) (calls : List (Call φ)) :
    engine.run host.recorded env p (state, calls)
      = ((engine.run host env p state).1, (engine.run host env p state).2,
        calls ++ engine.calls host env p state) := by
  obtain ⟨made, hwalk, hreplay, hcalls⟩ := engine.exists_walk host env p state
  rw [hcalls]
  exact (hwalk.runs (hreplay.recorded calls)).1

/-- The calls of programs in a row come one behind the other, where the
second is run. -/
theorem Engine.calls_append (engine : Engine) (host : Host φ σ) (env : Environment φ) (p : Program)
    {q : Program} (hq : q.statements ≠ []) (state : σ) :
    engine.calls host env (p ++ q) state = engine.calls host env p state ++
      match engine.run host env p state with
      | (.error _, _) => []
      | (.ok _, mid) => engine.calls host env q mid := by
  have hrecorded := engine.run_append host.recorded env p hq (state, [])
  rw [Engine.run_recorded_eq, Engine.run_recorded_eq p] at hrecorded
  generalize engine.run host env p state = result at hrecorded ⊢
  rcases result with ⟨e | value, mid⟩
  · rw [List.append_nil]
    exact congrArg (·.2.2) hrecorded
  · dsimp only at hrecorded ⊢
    rw [Engine.run_recorded_eq] at hrecorded
    exact congrArg (·.2.2) hrecorded

/-- The calls that a source makes, in order; without a program there are
none. -/
def Engine.sourceCalls (engine : Engine) (host : Host φ σ) (env : Environment φ)
    (source : String) (state : σ) : List (Call φ) :=
  (engine.evaluate host.recorded env source (state, [])).2.2

theorem Engine.sourceCalls_of_parse {source : String} {p : Program}
    (h : engine.parse source = .ok p) (state : σ) :
    engine.sourceCalls host env source state = engine.calls host env p state := by
  unfold Engine.sourceCalls
  rw [Engine.evaluate_of_parse h]
  rfl

end Runs

/-- Two sources that are read can be put together. What they are read as
has the statements of the one and then those of the other. It is evaluated
like the first, if that fails, and no calls of the second are made; else
like the second, from the state that the first has left, and behind the
calls of the first. -/
theorem Engine.evaluate_append {engine : Engine} {a b : String} {p q : Program}
    (ha : engine.parse a = .ok p) (hb : engine.parse b = .ok q) :
    engine.parse (a ++ b) = .ok ⟨p.statements ++ q.statements⟩ ∧
      ∀ {φ σ : Type} [HostFunction φ] (host : Host φ σ) (env : Environment φ) (state : σ),
        (∀ e mid, engine.evaluate host env a state = (.error e, mid) →
          engine.evaluate host env (a ++ b) state = (.error e, mid) ∧
            engine.sourceCalls host env (a ++ b) state = engine.sourceCalls host env a state) ∧
        ∀ value mid, engine.evaluate host env a state = (.ok value, mid) →
          engine.evaluate host env (a ++ b) state = engine.evaluate host env b mid ∧
            engine.sourceCalls host env (a ++ b) state
              = engine.sourceCalls host env a state ++ engine.sourceCalls host env b mid := by
  have hparse := Engine.parse_append ha hb
  refine ⟨hparse, ?_⟩
  intro φ σ _ host env state
  obtain ⟨d, -, rfl, -⟩ := Engine.exists_yield hb
  have hrun := engine.run_append host env p d.statements_ne_nil state
  have hcalls := engine.calls_append host env p d.statements_ne_nil state
  rw [Engine.evaluate_of_parse ha, Engine.evaluate_of_parse hparse, Engine.sourceCalls_of_parse ha,
    Engine.sourceCalls_of_parse hparse, hrun, hcalls]
  rcases engine.run host env p state with ⟨e | value, mid⟩
  · refine ⟨?_, nofun⟩
    intro _ _ h
    exact ⟨h, List.append_nil _⟩
  · refine ⟨nofun, ?_⟩
    intro _ mid' h
    obtain rfl : mid = mid' := congrArg Prod.snd h
    rw [Engine.evaluate_of_parse hb, Engine.sourceCalls_of_parse hb]
    exact ⟨rfl, rfl⟩

/-- The source `count("ü");` with a blank of two bytes behind it. -/
def oneCallSource : String := "count(\"ü\");\u00a0"

def oneCall : OfProgram :=
  .last (.last (OfPrimary.call "count" ⟨0, 5⟩ ⟨5, 6⟩
    (.last (OfPrimary.text "ü" ⟨6, 10⟩).expression) ⟨10, 11⟩).expression) ⟨11, 12⟩

def twoCallsSource : String := "count(), count(1);"

def twoCalls : OfProgram :=
  .last (.more (OfPrimary.bareCall "count" ⟨0, 5⟩ ⟨5, 6⟩ ⟨6, 7⟩).expression ⟨7, 8⟩
    (.last (OfPrimary.call "count" ⟨9, 14⟩ ⟨14, 15⟩
      (.last (OfPrimary.number .one ⟨15, 16⟩).expression) ⟨16, 17⟩).expression)) ⟨17, 18⟩

/-- One call and then two. -/
theorem Engine.evaluate_append_calls :
    (default : Engine).parse (oneCallSource ++ twoCallsSource)
        = .ok ⟨oneCall.statements ++ twoCalls.statements⟩ ∧
      ((default : Engine).sourceCalls (Builtin.host 1) countingNames
        (oneCallSource ++ twoCallsSource) .empty).map (fun call => call.2.length) = [1, 0, 1] := by
  have hone : (default : Engine).parse oneCallSource = .ok oneCall.tree :=
    Engine.parse_eq_ok_iff.2 ⟨oneCall.yield, by decide +kernel, oneCall.ofTokens_of_le (by decide)⟩
  have htwo : (default : Engine).parse twoCallsSource = .ok twoCalls.tree :=
    Engine.parse_eq_ok_iff.2
      ⟨twoCalls.yield, by decide +kernel, twoCalls.ofTokens_of_le (by decide)⟩
  obtain ⟨hparse, hevaluate⟩ := Engine.evaluate_append hone htwo
  refine ⟨hparse, ?_⟩
  obtain ⟨-, hbehind⟩ := hevaluate (Builtin.host 1) countingNames .empty
  have hfirst := Engine.evaluate_of_parse hone (Builtin.host 1) countingNames .empty
  have hok : ((default : Engine).run (Builtin.host 1) countingNames oneCall.tree .empty).1.isOk
      = true := by decide +kernel
  cases hvalue : ((default : Engine).run (Builtin.host 1) countingNames oneCall.tree .empty).1 with
  | error e =>
    rw [hvalue] at hok
    cases hok
  | ok value =>
    rw [hvalue] at hfirst
    obtain ⟨-, hcalls⟩ := hbehind _ _ hfirst
    rw [hcalls, Engine.sourceCalls_of_parse hone, Engine.sourceCalls_of_parse htwo]
    decide +kernel

end Reckoner
