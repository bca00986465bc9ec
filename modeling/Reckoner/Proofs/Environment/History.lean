/-
What an environment holds after any history of updates. Each way to make
bindings, one by one or many at once, by a name that is given or by that of
a function, comes down to a list of writes; and starting afresh from a list
of bindings drops the writes before it. So an environment is the one that
its writes make in the empty one, and this is all that an update has to
keep.

What is left is a statement on lists: a name is bound to the value of the
last write to it. It is proved along the writes from the front, where a
write counts if none of the later ones has its name.
-/
import Mathlib.Data.List.Dedup
import Std.Data.TreeMap.Lemmas
import Reckoner.Environment

namespace Reckoner

variable {φ : Type}

-- =============================================================== the writes

/-- A write of a value to a name. -/
abbrev Write (φ : Type) := String × Value φ

/-- The names that are written to, each as often as it is. -/
def written (writes : List (Write φ)) : List String := writes.map Prod.fst

/-- The last of the writes to the name writes this value. -/
def LastWrite (writes : List (Write φ)) (name : String) (value : Value φ) : Prop :=
  ∃ before behind, writes = before ++ (name, value) :: behind ∧ name ∉ written behind

namespace LastWrite

variable {write : Write φ} {writes : List (Write φ)} {name : String} {value : Value φ}

theorem mem (h : LastWrite writes name value) : name ∈ written writes := by
  obtain ⟨before, behind, rfl, -⟩ := h
  simp [written]

/-- The first write counts if there is no later one to its name. -/
theorem cons_iff : LastWrite (write :: writes) name value ↔
    LastWrite writes name value ∨ write = (name, value) ∧ name ∉ written writes := by
  constructor
  · rintro ⟨before, behind, hsplit, hlast⟩
    cases before with
    | nil =>
      obtain ⟨rfl, rfl⟩ := List.cons.inj hsplit
      exact .inr ⟨rfl, hlast⟩
    | cons first before =>
      obtain ⟨rfl, rfl⟩ := List.cons.inj hsplit
      exact .inl ⟨before, behind, rfl, hlast⟩
  · rintro (⟨before, behind, rfl, hlast⟩ | ⟨rfl, hlast⟩)
    · exact ⟨write :: before, behind, rfl, hlast⟩
    · exact ⟨[], writes, rfl, hlast⟩

end LastWrite

namespace Environment

variable {env : Environment φ} {writes : List (Write φ)} {name : String} {value : Value φ}

-- ========================================================= bindings of writes

theorem extend_cons (env : Environment φ) (write : Write φ) (writes : List (Write φ)) :
    env.extend (write :: writes) = (env.register write.1 write.2).extend writes := rfl

theorem extend_append (env : Environment φ) (writes more : List (Write φ)) :
    env.extend (writes ++ more) = (env.extend writes).extend more :=
  List.foldl_append

/-- Bindings that are made all at once are those made one after another. -/
theorem ofList_eq_extend (writes : List (Write φ)) : ofList writes = empty.extend writes := by
  suffices ∀ env : Environment φ, ⟨env.bindings.insertMany writes⟩ = env.extend writes from
    this empty
  induction writes with
  | nil => exact fun env => congrArg Environment.mk Std.TreeMap.insertMany_nil
  | cons write writes ih =>
    intro env
    rw [extend_cons, ← ih, Std.TreeMap.insertMany_cons]
    rfl

/-- A name has the value of the last write to it, or the one that it had
before. -/
theorem get?_extend_iff : (env.extend writes).get? name = some value ↔
    LastWrite writes name value ∨ name ∉ written writes ∧ env.get? name = some value := by
  induction writes generalizing env with
  | nil =>
    have hnone : ¬ LastWrite ([] : List (Write φ)) name value :=
      fun h => absurd h.mem List.not_mem_nil
    simp [extend, hnone, written]
  | cons write writes ih =>
    obtain ⟨first, firstValue⟩ := write
    rw [extend_cons, ih, get?_register, LastWrite.cons_iff]
    by_cases hname : first = name
    · subst hname
      rw [if_pos rfl]
      simp only [Option.some.injEq, Prod.mk.injEq, true_and, written, List.map_cons,
        List.mem_cons, true_or, not_true_eq_false, false_and, or_false]
      rw [and_comm]
    · rw [if_neg hname]
      simp [written, hname, Ne.symm hname]

/-- Every name is bound that is written to, and none besides. -/
theorem contains_extend_iff : (empty.extend writes : Environment φ).contains name = true ↔
    name ∈ written writes := by
  rw [← ofList_eq_extend]
  unfold contains ofList
  rw [Std.TreeMap.contains_ofList, List.contains_iff_mem]
  rfl

theorem contains_iff : env.contains name = true ↔ ∃ value, env.get? name = some value := by
  unfold contains get?
  rw [Std.TreeMap.contains_eq_isSome_getElem?, Option.isSome_iff_exists]

theorem mem_names_iff : name ∈ env.names ↔ env.contains name = true := Std.TreeMap.mem_keys

theorem nodup_names (env : Environment φ) : env.names.Nodup := Std.TreeMap.nodup_keys

theorem length_names (env : Environment φ) : env.names.length = env.size :=
  Std.TreeMap.length_keys

end Environment

-- =============================================================== histories

/-- A change to an environment. Environments are values, so making a
binding in place and making one on the way are the same. -/
inductive Update (φ : Type) where
  | register (name : String) (value : Value φ)
  | registerFunction (function : φ)
  | extend (writes : List (Write φ))
  /-- Whatever there is is given up for the environment of the writes. -/
  | ofList (writes : List (Write φ))

namespace Update

variable [HostFunction φ]

/-- The environment after the change. -/
def apply (env : Environment φ) : Update φ → Environment φ
  | register name value => env.register name value
  | registerFunction function => env.registerFunction function
  | extend writes => env.extend writes
  | ofList writes => .ofList writes

/-- The writes that count after the change, given those that counted
before. A function is written to its own name. -/
def record (writes : List (Write φ)) : Update φ → List (Write φ)
  | register name value => writes ++ [(name, value)]
  | registerFunction function => writes ++ [(HostFunction.name function, .function function)]
  | extend more => writes ++ more
  | ofList others => others

/-- The environment after a history of changes to the empty one. -/
def environment (history : List (Update φ)) : Environment φ := history.foldl apply .empty

/-- The writes of a history that count after it. -/
def writes (history : List (Update φ)) : List (Write φ) := history.foldl record []

/-- A change keeps the environment to what its writes make. -/
theorem apply_extend (update : Update φ) (writes : List (Write φ)) :
    apply (Environment.empty.extend writes) update
      = Environment.empty.extend (record writes update) := by
  cases update with
  | register name value =>
    rw [record, Environment.extend_append]
    rfl
  | registerFunction function =>
    rw [record, Environment.extend_append]
    rfl
  | extend more => exact (Environment.extend_append ..).symm
  | ofList others => exact Environment.ofList_eq_extend others

/-- After any history the environment is what its writes make. -/
theorem environment_eq (history : List (Update φ)) :
    environment history = Environment.empty.extend (writes history) := by
  suffices ∀ before : List (Write φ), history.foldl apply (Environment.empty.extend before)
      = Environment.empty.extend (history.foldl record before) from this []
  induction history with
  | nil => exact fun _ => rfl
  | cons update history ih =>
    intro before
    rw [List.foldl_cons, List.foldl_cons, apply_extend, ih]

end Update

/-- After any history of updates an environment has, under every name, the
value of the last write to it, and none if there was none; functions are
written to their own names, and are the same functions when they come out.
A name is bound if something is found under it; the names are those that
were written to, each once, and they are counted so. And it is all the same
whether bindings are made from a list at once, put into the empty
environment, or made one by one. -/
theorem Environment.of_history [HostFunction φ] (history : List (Update φ)) :
    let env := Update.environment history
    let writes := Update.writes history
    (∀ name value, env.get? name = some value ↔ LastWrite writes name value) ∧
      (∀ name, env.get? name = none ↔ name ∉ written writes) ∧
      (∀ name, env.contains name = true ↔ ∃ value, env.get? name = some value) ∧
      (env.names.Nodup ∧ ∀ name, name ∈ env.names ↔ name ∈ written writes) ∧
      env.size = (written writes).dedup.length ∧
      (env.isEmpty = true ↔ env.size = 0) ∧
      ∀ pairs : List (Write φ), ofList pairs = empty.extend pairs ∧
        empty.extend pairs
          = Update.environment (pairs.map fun pair => .register pair.1 pair.2) := by
  intro env writes
  have henv : env = empty.extend writes := Update.environment_eq history
  have hget (name : String) (value : Value φ) :
      env.get? name = some value ↔ LastWrite writes name value := by
    rw [henv, get?_extend_iff, get?_empty]
    simp
  have hnames (name : String) : name ∈ env.names ↔ name ∈ written writes := by
    rw [mem_names_iff, henv, contains_extend_iff]
  have hcontains (name : String) :
      env.contains name = true ↔ ∃ value, env.get? name = some value := contains_iff
  refine ⟨hget, fun name => ?_, hcontains, ⟨nodup_names env, hnames⟩, ?_, ?_, fun pairs =>
    ⟨ofList_eq_extend pairs, ?_⟩⟩
  · rw [← hnames, mem_names_iff, hcontains, Option.eq_none_iff_forall_ne_some, not_exists]
  · have hperm : env.names.Perm (written writes).dedup :=
      (List.perm_ext_iff_of_nodup (nodup_names env) (List.nodup_dedup _)).2 fun name => by
        rw [hnames, List.mem_dedup]
    rw [← length_names, hperm.length_eq]
  · unfold isEmpty size
    rw [Std.TreeMap.isEmpty_eq_size_eq_zero]
    simp
  · unfold Update.environment
    rw [List.foldl_map]
    rfl

end Reckoner
