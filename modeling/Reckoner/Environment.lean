/-
Environments: the names that a program may mention and what they are
bound to. A name has one binding, the last that was made, and programs
cannot make any.
-/
import Std.Data.TreeMap
import Reckoner.Value.Basic

namespace Reckoner

/-- A table of names. -/
structure Environment (φ : Type) where
  bindings : Std.TreeMap String (Value φ)

namespace Environment

variable {φ : Type}

/-- The environment without names. -/
def empty : Environment φ := ⟨{}⟩

instance : Inhabited (Environment φ) := ⟨empty⟩
instance : EmptyCollection (Environment φ) := ⟨empty⟩

/-- Binds a name, whatever it was bound to before. -/
def register (env : Environment φ) (name : String) (value : Value φ) : Environment φ :=
  ⟨env.bindings.insert name value⟩

/-- Binds a function to its own name. -/
def registerFunction [HostFunction φ] (env : Environment φ) (f : φ) : Environment φ :=
  env.register (HostFunction.name f) (.function f)

/-- Makes bindings one after another. -/
def extend (env : Environment φ) (pairs : List (String × Value φ)) : Environment φ :=
  pairs.foldl (fun env (name, value) => env.register name value) env

/-- The environment of a list of bindings. -/
def ofList (pairs : List (String × Value φ)) : Environment φ :=
  ⟨Std.TreeMap.ofList pairs⟩

/-- What a name is bound to. -/
def get? (env : Environment φ) (name : String) : Option (Value φ) := env.bindings[name]?

/-- Is the name bound? -/
def contains (env : Environment φ) (name : String) : Bool := env.bindings.contains name

/-- The number of names. -/
def size (env : Environment φ) : Nat := env.bindings.size

/-- Are there no names? -/
def isEmpty (env : Environment φ) : Bool := env.bindings.isEmpty

/-- The names in increasing order. -/
def names (env : Environment φ) : List String := env.bindings.keys

-- ============================================================ the view

@[simp] theorem get?_empty (name : String) : (empty : Environment φ).get? name = none := by
  simp [get?, empty]

/-- A binding is seen under its name and hides the one before it. -/
theorem get?_register (env : Environment φ) (name other : String) (value : Value φ) :
    (env.register name value).get? other = if name = other then some value else env.get? other := by
  simp only [get?, register, Std.TreeMap.getElem?_insert, Std.LawfulEqCmp.compare_eq_iff_eq]

end Environment

end Reckoner
