import CallAudit.Tree.Basic

/-!
# Tables of bindings

A table tells for a key, which is a module name as written in the code, the module that it stands for
and the functions that may be called by their bare name because of it.

## Main definitions

* `Filter`: which functions of a module may be called by their bare name.
* `Binding`: a module with a filter.
* `Table`: bindings by key; `Table.find?` is its view, `Table.insert` replaces.
-/

namespace CallAudit

namespace FunctionRef

/-- Functions are ordered by name, then by arity. -/
def before (f g : FunctionRef) : Bool := f.name < g.name || (f.name == g.name && f.arity < g.arity)

/-- Adds a function to an ascending list, unless it is there already. -/
def insertSorted (f : FunctionRef) : List FunctionRef → List FunctionRef
  | [] => [f]
  | g :: gs => if f.before g then f :: g :: gs else if f = g then g :: gs else g :: insertSorted f gs

/-- The same functions in ascending order, each of them once. -/
def sortedSet (fs : List FunctionRef) : List FunctionRef := fs.foldr insertSorted []

/-- Adding a function to an ascending list adds nothing else. -/
theorem mem_insertSorted {f g : FunctionRef} {gs : List FunctionRef} :
    f ∈ insertSorted g gs ↔ f = g ∨ f ∈ gs := by
  induction gs with
  | nil => simp [insertSorted]
  | cons h gs ih =>
    simp only [insertSorted]
    split
    · simp
    · split
      · next e => simp [e]
      · simp [ih, or_left_comm]

/-- Sorting keeps the functions. -/
theorem mem_sortedSet {f : FunctionRef} {fs : List FunctionRef} : f ∈ sortedSet fs ↔ f ∈ fs := by
  induction fs with
  | nil => simp [sortedSet]
  | cons g fs ih =>
    change f ∈ insertSorted g (sortedSet fs) ↔ f ∈ g :: fs
    simp [mem_insertSorted, ih]

end FunctionRef

/-- Which functions of a module may be called by their bare name. -/
inductive Filter where
  | unrestricted
  /-- All of some kind, which is not told apart from all. -/
  | ofKind
  | only (functions : List FunctionRef)
  | except (functions : List FunctionRef)
  deriving DecidableEq, Repr

namespace Filter

/-- The filter of an import rule. -/
def ofRule : Option ImportRule → Filter
  | none => .unrestricted
  | some (.only functions) => .only (FunctionRef.sortedSet functions)
  | some (.except functions) => .except (FunctionRef.sortedSet functions)
  | some (.onlyKind _) => .ofKind

/-- Whether a function may be called by its bare name. -/
def admits : Filter → FunctionRef → Bool
  | .unrestricted, _ => true
  | .ofKind, _ => true
  | .only functions, f => functions.contains f
  | .except functions, f => !functions.contains f

end Filter

/-- What a key stands for. -/
structure Binding where
  path : ModuleName
  filter : Filter
  deriving DecidableEq, Repr

/-- Bindings by key, with no key twice. -/
structure Table where
  entries : List (ModuleName × Binding) := []
  distinct : (entries.map Prod.fst).Nodup := by exact List.nodup_nil
  deriving DecidableEq, Repr

namespace Table

/-- The binding of a key. -/
def find? (t : Table) (key : ModuleName) : Option Binding := t.entries.lookup key

/-- Whether a key has a binding. -/
def contains (t : Table) (key : ModuleName) : Bool := (t.find? key).isSome

/-- The table with a binding for a key, in place of the one it had. -/
def insert (t : Table) (key : ModuleName) (binding : Binding) : Table where
  entries := (key, binding) :: t.entries.filter (fun entry => entry.1 != key)
  distinct := by
    have kept : ((t.entries.filter (fun entry => entry.1 != key)).map Prod.fst).Nodup :=
      t.distinct.sublist (List.filter_sublist.map Prod.fst)
    simpa using kept

/-- The number of keys. -/
def size (t : Table) : Nat := t.entries.length

/-- The table with all the given bindings, the later ones in place of the earlier ones. -/
def insertAll (t : Table) (entries : List (ModuleName × Binding)) : Table :=
  entries.foldl (fun t entry => t.insert entry.1 entry.2) t

/-- The key of a new binding finds it. -/
theorem find?_insert_self (t : Table) (key : ModuleName) (binding : Binding) :
    (t.insert key binding).find? key = some binding := by
  simp [find?, insert]

/-- A new binding changes nothing for the other keys. -/
theorem find?_insert_of_ne (t : Table) {key other : ModuleName} (binding : Binding)
    (h : other ≠ key) : (t.insert key binding).find? other = t.find? other := by
  have hk : (other == key) = false := by simpa using h
  simp only [find?, insert, List.lookup_cons, hk]
  induction t.entries with
  | nil => rfl
  | cons entry entries ih =>
    obtain ⟨k, b⟩ := entry
    by_cases he : k = key
    · subst he
      simp [List.lookup_cons, hk, ih]
    · simp [List.lookup_cons, he, ih]

end Table

end CallAudit
