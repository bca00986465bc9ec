/-
A host with a fixed stock of functions: sums, joins, choices, questions
about the arguments and the environment, and two that make calls of their
own, one to a function it is handed and one to the language itself. It
keeps a record of every call, made before the call is answered.
-/
import Reckoner.Diagnostic
import Reckoner.Host.Log

namespace Reckoner

-- =========================================================== functions

/-- How many arguments a function takes. -/
inductive Arity where
  | any
  | exactly (count : Nat)
  | between (least most : Nat)
deriving DecidableEq, Inhabited

/-- Does a function take so many arguments? -/
def Arity.accepts : Arity → Nat → Bool
  | any, _ => true
  | exactly n, count => n == count
  | between least most, count => least ≤ count && count ≤ most

/-- What a function of the stock does. -/
inductive Behaviour where
  | sum
  | concat
  | length
  | pick
  | negate
  | typeName
  | first
  | last
  | count
  | undefined
  | fail
  | failWith
  | lookup
  | names
  | apply
  | evaluate
deriving DecidableEq, Inhabited

/-- A function of the stock. Two with the same name and behaviour are
still two: the serial number says which is which. -/
structure Builtin where
  serial : Nat
  name : String
  arity : Arity
  behaviour : Behaviour
deriving DecidableEq, Inhabited

instance : HostFunction Builtin where
  name := Builtin.name
  accepts f count := f.arity.accepts count

namespace Builtin

/-- A function with a fixed number of arguments, or any, as debugging
output shows it. -/
def inspect (name : String) (arity : Option Nat) : String :=
  let count := match arity with
    | some n => "Some(" ++ toString n ++ ")"
    | none => "None"
  "NativeFunction \x7b name: " ++ Text.quoted name ++ ", arity: " ++ count ++ ", .. \x7d"

-- ============================================================= answers

/-- The answer to a call. `host` makes the calls that the function makes
itself. -/
def answer (host : Host Builtin CallLog) (f : Builtin) (arguments : List (Value Builtin))
    (env : Environment Builtin) (log : CallLog) :
    Except CallError (Value Builtin) × CallLog :=
  let given (i : Nat) : Value Builtin := arguments[i]?.getD .undefined
  let firstText := (arguments.head?.map Value.toText).getD ""
  match f.behaviour with
  | .sum => (.ok (.number (arguments.foldl (fun total x => total + x.toNumber) .zero)), log)
  | .concat => (.ok (.text (String.join (arguments.map Value.toText))), log)
  | .length =>
    match arguments with
    | [] => (.ok .undefined, log)
    | x :: _ => (.ok (.number (.ofNat x.toText.length)), log)
  | .pick => (.ok (if (given 0).isTruthy then given 1 else given 2), log)
  | .negate => (.ok (.number (given 0).toNumber.neg), log)
  | .typeName => (.ok (.text ((arguments.head?.map Value.typeName).getD "none")), log)
  | .first => (.ok (arguments.head?.getD (.number .one)), log)
  | .last => (.ok (arguments.getLast?.getD .undefined), log)
  | .count => (.ok (.number (.ofNat arguments.length)), log)
  | .undefined => (.ok .undefined, log)
  | .fail =>
    (.error ⟨"failed with " ++ toString arguments.length ++ " arguments"⟩, log)
  | .failWith => (.error ⟨firstText⟩, log)
  | .lookup =>
    match env.get? firstText, arguments[1]? with
    | some x, _ => (.ok x, log)
    | none, some x => (.ok x, log)
    | none, none => (.error ⟨"no binding named " ++ firstText⟩, log)
  | .names => (.ok (.text (",".intercalate env.names)), log)
  | .apply =>
    match arguments with
    | .function g :: rest =>
      if g.arity.accepts rest.length then host.call g rest env log
      else (.error ⟨g.name ++ " refused " ++ toString rest.length⟩, log)
    | _ => (.error ⟨"apply needs a function"⟩, log)
  | .evaluate =>
    let (outcome, log) := Engine.evaluate {} host env firstText log
    (outcome.mapError fun e => ⟨e.message⟩, log)

/-- The host of the stock. A call may lead to others, nested to the given
depth at most; what would go deeper is refused. -/
def host : Nat → Host Builtin CallLog
  | 0 => ⟨fun f _ _ log => (.error ⟨f.name ++ " is nested too deeply"⟩, log)⟩
  | depth + 1 => ⟨fun f arguments env log =>
      answer (host depth) f arguments env (log.record f arguments)⟩

end Builtin

end Reckoner
