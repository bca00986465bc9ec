/-
What the evaluator asks of its host: to call a function. A call sees its
arguments and the environment of the program that makes it, and whatever
state the host keeps, which it may change whether it succeeds or fails.
-/
import Reckoner.Environment

namespace Reckoner

/-- A host function's report that it could not answer. -/
structure CallError where
  message : String
deriving DecidableEq, Inhabited

/-- A way to call functions of type `φ` that keeps a state `σ`. -/
structure Host (φ σ : Type) where
  call : φ → List (Value φ) → Environment φ → σ → Except CallError (Value φ) × σ

end Reckoner
