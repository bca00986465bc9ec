/-
Engines: from source text to value under given limits. Exactly one stage
fails, the first that can: a text that is not split into tokens is not
read, and one that is not read is not evaluated. Nothing is kept from one
run to the next but the host's own state.
-/
import Reckoner.Evaluator
import Reckoner.Program.Parser
import Reckoner.Token.Lexer

namespace Reckoner

/-- Why a source text has no value, by the stage that failed. -/
inductive Error where
  | lex (error : LexError)
  | parse (error : ParseError)
  | eval (error : EvalError)
deriving DecidableEq

/-- The limits that sources are read and evaluated under. -/
structure Engine where
  /-- How deep a program may nest when it is read. -/
  parseLimit : Nat := 500
  /-- How many nodes may be open when it is evaluated. -/
  evalLimit : Nat := 1000
deriving DecidableEq

namespace Engine

/-- The default engine has the default limits. -/
instance : Inhabited Engine := ⟨{}⟩

/-- Reads a source text into a program. -/
def parse (engine : Engine) (source : String) : Except Error Program :=
  match tokenize source with
  | .error e => .error (.lex e)
  | .ok tokens => (Program.ofTokens engine.parseLimit tokens).mapError .parse

/-- A source is read if it is split into tokens and the tokens are read. -/
theorem parse_eq_ok_iff {engine : Engine} {source : String} {p : Program} :
    engine.parse source = .ok p ↔ ∃ tokens, tokenize source = .ok tokens ∧
      Program.ofTokens engine.parseLimit tokens = .ok p := by
  unfold parse
  cases tokenize source with
  | error e => simp
  | ok tokens =>
    dsimp only
    cases hread : Program.ofTokens engine.parseLimit tokens with
    | error fault =>
      show (.error (.parse fault) : Except Error Program) = .ok p ↔ _
      simp [hread]
    | ok q =>
      show (.ok q : Except Error Program) = .ok p ↔ _
      simp [hread]

/-- One of the two stages fails if it is not. -/
theorem parse_eq_error_iff {engine : Engine} {source : String} {e : Error} :
    engine.parse source = .error e ↔
      (∃ fault, tokenize source = .error fault ∧ e = .lex fault) ∨
        ∃ tokens fault, tokenize source = .ok tokens ∧
          Program.ofTokens engine.parseLimit tokens = .error fault ∧ e = .parse fault := by
  unfold parse
  cases tokenize source with
  | error fault => simp [eq_comm]
  | ok tokens =>
    dsimp only
    cases hread : Program.ofTokens engine.parseLimit tokens with
    | error fault =>
      show (.error (.parse fault) : Except Error Program) = .error e ↔ _
      simp [hread, eq_comm]
    | ok q =>
      show (.ok q : Except Error Program) = .error e ↔ _
      simp [hread]

variable {φ σ : Type} [HostFunction φ]

/-- The value of a program, and the host's state after it. -/
def run (engine : Engine) (host : Host φ σ) (env : Environment φ) (program : Program)
    (state : σ) : Except EvalError (Value φ) × σ :=
  Evaluator.start (Evaluator.evalProgram ⟨host, env, engine.evalLimit⟩ program) state

/-- The value of a source text, and the host's state after it. -/
def evaluate (engine : Engine) (host : Host φ σ) (env : Environment φ) (source : String)
    (state : σ) : Except Error (Value φ) × σ :=
  match engine.parse source with
  | .error e => (.error e, state)
  | .ok program =>
    let (outcome, state) := engine.run host env program state
    (outcome.mapError .eval, state)

theorem evaluate_of_parse {engine : Engine} {source : String} {program : Program}
    (h : engine.parse source = .ok program) (host : Host φ σ) (env : Environment φ) (state : σ) :
    engine.evaluate host env source state
      = ((engine.run host env program state).1.mapError .eval,
        (engine.run host env program state).2) := by
  unfold evaluate
  rw [h]

end Engine

/-- A source text kept together with the engine it is meant for. It is
not looked at before it is run, so what is wrong with it shows then. -/
structure Script where
  engine : Engine
  source : String
deriving DecidableEq, Inhabited

namespace Script

variable {φ σ : Type} [HostFunction φ]

/-- The value of the script in an environment. -/
def run (script : Script) (host : Host φ σ) (env : Environment φ) (state : σ) :
    Except Error (Value φ) × σ :=
  script.engine.evaluate host env script.source state

end Script

end Reckoner
