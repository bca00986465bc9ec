/-
A record of the calls that a host answered, in order, each as it would be
written down: the function's name and its arguments, shown so that text
and numbers can be told apart.
-/
import Reckoner.Value.Coercion

namespace Reckoner

/-- The calls so far, the first one first. -/
structure CallLog where
  entries : List String
deriving DecidableEq, Inhabited

namespace CallLog

/-- A record without calls. -/
def empty : CallLog := ⟨[]⟩

/-- The entry for a call. -/
def entry {φ : Type} [HostFunction φ] (f : φ) (arguments : List (Value φ)) : String :=
  HostFunction.name f ++ "(" ++ ", ".intercalate (arguments.map Value.inspect) ++ ")"

/-- The record with one more call. -/
def record {φ : Type} [HostFunction φ] (log : CallLog) (f : φ) (arguments : List (Value φ)) :
    CallLog :=
  ⟨log.entries ++ [entry f arguments]⟩

end CallLog

end Reckoner
