/-
The values of the language. Programs make numbers, texts and the absence
of a value; functions come from the host alone. What a host function is
does not matter here: any type will do whose members have a name and say
how many arguments they take, so values are values over such a type.
-/
import Reckoner.Binary64.Basic
import Reckoner.Text.Quoted

namespace Reckoner

/-- A type of functions that a host offers to programs. -/
class HostFunction (φ : Type) where
  /-- The function's own name, which a binding may differ from. -/
  name : φ → String
  /-- Can the function be called with so many arguments? -/
  accepts : φ → Nat → Bool

/-- A value at run time. -/
inductive Value (φ : Type) where
  | number (value : Binary64)
  | text (content : String)
  | function (function : φ)
  /-- What a name that is bound to nothing is worth. -/
  | undefined
deriving Inhabited

namespace Value

variable {φ : Type}

/-- The word for the type of a value. -/
def typeName : Value φ → String
  | number _ => "number"
  | text _ => "string"
  | function _ => "function"
  | undefined => "undefined"

/-- The number, of a value that is one. -/
def number? : Value φ → Option Binary64
  | number x => some x
  | _ => none

/-- The text, of a value that is one. -/
def text? : Value φ → Option String
  | text s => some s
  | _ => none

/-- The function, of a value that is one. -/
def function? : Value φ → Option φ
  | function f => some f
  | _ => none

/-- Is it the absence of a value? -/
def isUndefined : Value φ → Bool
  | undefined => true
  | _ => false

/-- Is the value one of text? -/
def isText : Value φ → Bool
  | text _ => true
  | _ => false

/-- Are two values equal, numbers compared as numbers and functions by
identity? NaN is equal to nothing. -/
def equals [DecidableEq φ] : Value φ → Value φ → Bool
  | number x, number y => x.equals y
  | text s, text t => s == t
  | function f, function g => f == g
  | undefined, undefined => true
  | _, _ => false

end Value

end Reckoner
