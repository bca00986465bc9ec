/-
An evaluator that is used again. Its counter is all that one request could
leave behind for the next, apart from what the host keeps. A node counts
itself out when it is done, failed or not, so the counter is back at zero
after every request, and the next one is answered as a new evaluator would
answer it. This takes one lemma about a single request, from zero; a row
of requests goes by induction.

While a request is answered, the counter stays within the limit: so say
the notes that are taken of it where a node begins and where it is done,
and without the notes the answer is the same. When the counter has reached
the limit, the next node that is come to is refused, and this is the only
failure for want of levels that there is: it reports the limit as the
depth.
-/
import Reckoner.Proofs.Evaluation.Blame
import Reckoner.Proofs.Evaluation.Counter

namespace Reckoner

open Evaluator

/-- What an evaluator is asked for. -/
inductive Request where
  | program (p : Program)
  | statement (row : Statement)
  | expression (e : Expr)

namespace Evaluator

variable {φ σ : Type} [HostFunction φ] (ev : Evaluator φ σ)

/-- Answers a request. -/
def serve : Request → Step σ (Value φ)
  | .program p => ev.evalProgram p
  | .statement row => ev.evalStatement row
  | .expression e => ev.evalExpr e

/-- Answers requests one after another, each from the state that the one
before has left, whatever became of it. -/
def serveAll : List Request → State σ → List (Except EvalError (Value φ)) × State σ
  | [], s => ([], s)
  | r :: rest, s =>
    let (outcome, s) := ev.serve r s
    let (outcomes, s) := serveAll rest s
    (outcome :: outcomes, s)

/-- Answers requests one after another, each by a new evaluator. The host
is the same one. -/
def serveFresh : List Request → σ → List (Except EvalError (Value φ)) × σ
  | [], state => ([], state)
  | r :: rest, state =>
    let (outcome, state) := start (ev.serve r) state
    let (outcomes, state) := serveFresh rest state
    (outcome :: outcomes, state)

/-- The same, where nodes are treated in a given way. -/
def serveBy (node : Treatment σ) : Request → Step σ (Value φ)
  | .program p => p.evalBy ev node
  | .statement row => Expr.evalLastBy ev node .undefined row
  | .expression e => e.evalBy ev node

/-- Answers a request and takes notes of the counter, none of which are
there before. -/
def serveCounting (r : Request) (s : State σ) :
    Except EvalError (Value φ) × State (σ × List Nat) :=
  ev.beside.serveBy ev.beside.counting r ⟨s.depth, s.host, []⟩

end Evaluator

section Requests

variable {φ σ : Type} [HostFunction φ]

/-- Want of levels is reported at the limit only. -/
theorem Accounted.overflow_eq {α : Type} {env : Environment φ} {limit depth depth' : Nat}
    {nodes : Path → Option Expr} {made : List (Exchange φ)} {outcome : Except EvalError α}
    (h : Accounted env limit nodes made outcome)
    (hdeep : outcome = .error (.stackOverflow depth depth')) : depth = limit ∧ depth' = limit := by
  cases h.blames _ hdeep with
  | tooDeep => exact ⟨rfl, rfl⟩

variable (ev : Evaluator φ σ)

/-- Taking notes does not change an answer, and none of them says more than
the limit. -/
theorem Evaluator.counts_serve (r : Request) :
    Counts ev.limit (ev.serve r) (ev.beside.serveBy ev.beside.counting r) := by
  cases r with
  | program p =>
    exact (Counts.lockstep ev).statements .undefined p.statements fun _ _ _ _ => trivial
  | statement row => exact (Counts.lockstep ev).last (n := 0) .undefined row fun _ _ => trivial
  | expression e => exact (Counts.lockstep ev).expr (n := 0) e trivial

theorem Evaluator.serveCounting_eq (r : Request) {s : State σ} (hdepth : s.depth ≤ ev.limit) :
    ∃ counts, ev.serveCounting r s
        = ((ev.serve r s).1, ⟨(ev.serve r s).2.depth, (ev.serve r s).2.host, counts⟩) ∧
      ∀ n ∈ counts, n ≤ ev.limit := by
  obtain ⟨outcome, depth', state', counts, hserve, hcounting, -, hcounts⟩ :=
    ev.counts_serve r s.depth s.host [] hdepth
  refine ⟨counts, ?_, hcounts⟩
  rw [hserve]
  exact hcounting

/-- A request leaves the counter at zero, whatever its outcome. -/
theorem Evaluator.serve_eq (r : Request) (state : σ) : ∃ outcome state',
    ev.serve r ⟨0, state⟩ = (outcome, ⟨0, state'⟩) ∧
      ∀ depth limit, outcome = .error (.stackOverflow depth limit) →
        depth = ev.limit ∧ limit = ev.limit := by
  cases r with
  | program p =>
    obtain ⟨made, outcome, state', hwalk, hreplay⟩ :=
      Program.exists_walkStatements ev.host ev.environment ev.limit p.statements state
    exact ⟨_, state', hwalk.runs .undefined hreplay,
      fun _ _ => (hwalk.accounted.map _).overflow_eq⟩
  | statement row =>
    obtain ⟨made, outcome, state', hwalk, hreplay⟩ :=
      Expr.exists_walkRow ev.host ev.environment ev.limit row 0 state
    exact ⟨_, state', (hwalk.runs hreplay).getLast .undefined,
      fun _ _ => ((hwalk.accounted (Nat.zero_le _)).map _).overflow_eq⟩
  | expression e =>
    obtain ⟨made, outcome, state', hwalk, hreplay⟩ :=
      e.exists_walk ev.host ev.environment ev.limit 0 state
    exact ⟨_, state', hwalk.runs hreplay,
      fun _ _ => (hwalk.accounted (Nat.zero_le _)).overflow_eq⟩

/-- A new evaluator answers the same and leaves the host the same. -/
theorem Evaluator.serve_eq_start (r : Request) (state : σ) :
    ev.serve r ⟨0, state⟩ = ((start (ev.serve r) state).1, ⟨0, (start (ev.serve r) state).2⟩) := by
  obtain ⟨outcome, state', hserve, -⟩ := ev.serve_eq r state
  unfold start
  rw [hserve]

theorem Evaluator.serveAll_eq_fresh (requests : List Request) (state : σ) :
    ev.serveAll requests ⟨0, state⟩
      = ((ev.serveFresh requests state).1, ⟨0, (ev.serveFresh requests state).2⟩) := by
  induction requests generalizing state with
  | nil => rfl
  | cons r rest ih =>
    rw [serveAll, ev.serve_eq_start r state]
    dsimp only
    rw [ih]
    rfl

theorem Evaluator.overflow_of_mem_serveFresh (requests : List Request) (state : σ)
    {depth limit : Nat}
    (h : .error (.stackOverflow depth limit) ∈ (ev.serveFresh requests state).1) :
    depth = ev.limit ∧ limit = ev.limit := by
  induction requests generalizing state with
  | nil => cases h
  | cons r rest ih =>
    rcases List.mem_cons.1 h with hfirst | hlater
    · obtain ⟨outcome, state', hserve, hoverflow⟩ := ev.serve_eq r state
      exact hoverflow depth limit ((congrArg Prod.fst hserve).symm.trans hfirst.symm)
    · exact ih _ hlater

end Requests

/-- An evaluator answers any requests, one after another, as if each were
put to a new one, and its counter is at zero behind them. While it answers
the next one the counter does not exceed the limit, and want of levels is
reported at the limit. -/
theorem Evaluator.serve_reused {φ σ : Type} [HostFunction φ] (ev : Evaluator φ σ)
    (requests : List Request) (state : σ) :
    ev.serveAll requests ⟨0, state⟩
        = ((ev.serveFresh requests state).1, ⟨0, (ev.serveFresh requests state).2⟩) ∧
      (∀ outcome ∈ (ev.serveAll requests ⟨0, state⟩).1, ∀ depth limit,
        outcome = .error (.stackOverflow depth limit) → depth = ev.limit ∧ limit = ev.limit) ∧
      ∀ s, s = (ev.serveAll requests ⟨0, state⟩).2 → s.depth = 0 ∧ ∀ r,
        ev.serve r s = ((start (ev.serve r) s.host).1, ⟨0, (start (ev.serve r) s.host).2⟩) ∧
          ∃ counts, ev.serveCounting r s
              = ((ev.serve r s).1, ⟨(ev.serve r s).2.depth, (ev.serve r s).2.host, counts⟩) ∧
            ∀ n ∈ counts, n ≤ ev.limit := by
  have hall := ev.serveAll_eq_fresh requests state
  refine ⟨hall, ?_, ?_⟩
  · rw [hall]
    rintro _ houtcome depth limit rfl
    exact ev.overflow_of_mem_serveFresh requests state houtcome
  · rintro s rfl
    rw [hall]
    exact ⟨rfl, fun r => ⟨ev.serve_eq_start r _, ev.serveCounting_eq r (Nat.zero_le _)⟩⟩

/-- An evaluator that opens two nodes at once at most. -/
def narrowEvaluator : Evaluator Builtin CallLog := ⟨Builtin.host 1, countingNames, 2⟩

/-- A sum whose right operand calls a name without a function, a group that
goes too deep in its second expression, and a call. -/
def narrowRequests : List Request :=
  [.expression (.binary .add (.number .one) (.call "nobody" [])),
    .statement [.group [.text "a", .group [.number .one]]], .program ⟨[[.call "count" []]]⟩]

/-- The two failures leave nothing behind that the call would show. Put
the second request once more: the counter is at two when the last number is
refused, and at zero in the end. -/
theorem Evaluator.serve_reused_narrow :
    (narrowEvaluator.serveAll narrowRequests ⟨0, .empty⟩).1.map Except.isOk
        = [false, false, true] ∧
      (narrowEvaluator.serveAll narrowRequests ⟨0, .empty⟩).1
        = (narrowEvaluator.serveFresh narrowRequests .empty).1 ∧
      ∃ s, s = (narrowEvaluator.serveAll narrowRequests ⟨0, .empty⟩).2 ∧ s.depth = 0 ∧
        (∃ again, narrowRequests[1]? = some again ∧
          (narrowEvaluator.serveCounting again s).2.host.2 = [1, 2, 1, 2, 2, 1, 0]) ∧
        ∀ r, ∃ counts, (narrowEvaluator.serveCounting r s).2
            = ⟨(narrowEvaluator.serve r s).2.depth, (narrowEvaluator.serve r s).2.host, counts⟩ ∧
          ∀ n ∈ counts, n ≤ 2 := by
  have hok : (narrowEvaluator.serveAll narrowRequests ⟨0, .empty⟩).1.map Except.isOk
      = [false, false, true] := by decide +kernel
  have hcounts : (narrowEvaluator.serveCounting
      (.statement [.group [.text "a", .group [.number .one]]])
      (narrowEvaluator.serveAll narrowRequests ⟨0, .empty⟩).2).2.host.2
      = [1, 2, 1, 2, 2, 1, 0] := by decide +kernel
  obtain ⟨hall, -, hnext⟩ := narrowEvaluator.serve_reused narrowRequests .empty
  obtain ⟨hdepth, hserve⟩ := hnext _ rfl
  refine ⟨hok, congrArg Prod.fst hall, _, rfl, hdepth, ⟨_, rfl, hcounts⟩, fun r => ?_⟩
  obtain ⟨-, counts, hcounting, hle⟩ := hserve r
  exact ⟨counts, congrArg Prod.snd hcounting, hle⟩

end Reckoner
