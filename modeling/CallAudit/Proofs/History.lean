import Mathlib.Data.List.DropRight
import CallAudit.Proofs.Table

/-!
# Scopes after a history of changes

A scope changes by declarations, inside functions or outside of them, and by ends of functions,
which may come in any order. At each point of a history the table of the module holds all that was
declared outside of functions, the table of the function what was declared inside since the last end
of a function, and in both the last entry of a key counts.

## Main definitions

* `Declaration.bindings`: what a declaration binds, in terms of its modules, keys and filter.
* `Scope.Change`, `Scope.after`: a change, and the scope after a list of changes.
* `Scope.enteredInside`, `Scope.enteredOutside`: the entries of a history that count for each table.

## Main statements

* `Scope.after_history`: look-ups and sizes after every history.
-/

namespace CallAudit

theorem ModuleName.innermost_eq (m : ModuleName) :
    m.innermost = ⟨m.rest.getLastD m.first, []⟩ :=
  congrArg (ModuleName.mk · []) (List.getLast_eq_getLastD (List.cons_ne_nil m.first m.rest))

namespace Declaration

/-- The modules that a declaration names: its path with each branch of its group behind it, or the
path alone if there is no group. -/
def modules : Declaration → List ModuleName
  | .importing path _ group | .aliasing path _ group =>
    if group = [] then [path]
    else group.map fun branch => ⟨path.first, path.rest ++ branch.first :: branch.rest⟩

/-- The key under which a declaration enters a module: an import takes the module itself, an alias
the new name that it gives to a single module, or else the last segment of the module, which is the
first one if there are no others. -/
def keyOf : Declaration → ModuleName → ModuleName
  | .importing _ _ _, full => full
  | .aliasing _ (some name) [], _ => ⟨name, []⟩
  | .aliasing _ _ _, full => ⟨full.rest.getLastD full.first, []⟩

/-- The filter that a declaration puts on its modules. -/
def filter : Declaration → Filter
  | .importing _ rule _ => .ofRule rule
  | .aliasing _ _ _ => .unrestricted

/-- What a declaration binds, module by module. -/
def bindings (d : Declaration) : List (ModuleName × Binding) :=
  d.modules.map fun full => (d.keyOf full, ⟨full, d.filter⟩)

theorem fullNames_eq (path : ModuleName) (group : List ModuleName) :
    fullNames path group = if group = [] then [path]
      else group.map fun branch => ⟨path.first, path.rest ++ branch.first :: branch.rest⟩ := by
  cases group with
  | nil => rfl
  | cons branch group => rfl

theorem entries_eq_bindings (d : Declaration) : d.entries = d.bindings := by
  cases d with
  | importing path rule group =>
    rw [bindings, modules, ← fullNames_eq]
    rfl
  | aliasing path rename group =>
    rw [bindings, modules, ← fullNames_eq, entries]
    apply List.map_congr_left
    intro full _
    cases rename with
    | none =>
      simp only [ModuleName.innermost_eq]
      rfl
    | some name =>
      cases group with
      | nil => rfl
      | cons branch group =>
        simp only [ModuleName.innermost_eq]
        rfl

end Declaration

namespace Scope

/-- A change of a scope: a declaration at the root of a tree, or the end of a function. -/
inductive Change where
  | declare (t : Tree) (inFunction : Bool)
  | endFunction
  deriving DecidableEq

namespace Change

def apply (s : Scope) : Change → Scope
  | .declare t inFunction => s.declare t inFunction
  | .endFunction => s.endFunction

/-- What a change declares inside functions, or outside of them. -/
def declared (inFunction : Bool) : Change → List (ModuleName × Binding)
  | .declare (.declare d) inside => if inside = inFunction then d.bindings else []
  | _ => []

theorem declared_declare (t : Tree) (inside inFunction : Bool) :
    declared inFunction (.declare t inside) = if inside = inFunction then t.entries else [] := by
  cases t with
  | declare d => rw [declared, Tree.entries, Declaration.entries_eq_bindings]
  | _ => simp [declared, Tree.entries]

end Change

/-- The scope after changes, starting with nothing in scope. -/
def after (changes : List Change) : Scope := changes.foldl Change.apply {}

/-- The entries declared inside functions since the last end of a function, in order. -/
def enteredInside (changes : List Change) : List (ModuleName × Binding) :=
  (changes.rtakeWhile fun change => change ≠ .endFunction).flatMap (Change.declared true)

/-- The entries declared outside of functions, in order. -/
def enteredOutside (changes : List Change) : List (ModuleName × Binding) :=
  changes.flatMap (Change.declared false)

theorem after_concat (changes : List Change) (change : Change) :
    after (changes ++ [change]) = change.apply (after changes) := by
  rw [after, List.foldl_append]
  rfl

/-- What was declared outside of functions stays: a change adds its entries behind the others. -/
theorem enteredOutside_concat (changes : List Change) (change : Change) :
    enteredOutside (changes ++ [change]) = enteredOutside changes ++ change.declared false := by
  simp [enteredOutside]

/-- The end of a function forgets what was declared inside; other changes add their entries. -/
theorem enteredInside_concat (changes : List Change) (change : Change) :
    enteredInside (changes ++ [change]) =
      if change = .endFunction then [] else enteredInside changes ++ change.declared true := by
  rw [enteredInside, List.rtakeWhile_concat]
  by_cases h : change = .endFunction
  · simp [h]
  · simp [h, enteredInside]

theorem outer_after (changes : List Change) :
    (after changes).outer = Table.insertAll {} (enteredOutside changes) := by
  induction changes using List.reverseRecOn with
  | nil => rfl
  | append_singleton changes change ih =>
    rw [after_concat, enteredOutside_concat, Table.insertAll_append, ← ih]
    cases change with
    | declare t inFunction =>
      rw [Change.declared_declare]
      cases inFunction with
      | false => rfl
      | true => rfl
    | endFunction => rfl

theorem inner_after (changes : List Change) :
    (after changes).inner = Table.insertAll {} (enteredInside changes) := by
  induction changes using List.reverseRecOn with
  | nil => rfl
  | append_singleton changes change ih =>
    rw [after_concat, enteredInside_concat]
    -- Only the end of a function takes entries away, and it takes all.
    cases change with
    | declare t inFunction =>
      rw [if_neg (by simp), Table.insertAll_append, ← ih, Change.declared_declare]
      cases inFunction with
      | false => rfl
      | true => rfl
    | endFunction => rfl

/-- After every history, a key is looked up among what was declared inside functions since the last
end of a function, then among what was declared outside of functions, and in both the last entry for
the key counts. The tables have one key for each different key among these entries. -/
theorem after_history (changes : List Change) (key : ModuleName) :
    (after changes).inner.find? key = lastFor? (enteredInside changes) key ∧
    (after changes).outer.find? key = lastFor? (enteredOutside changes) key ∧
    (after changes).find? key =
      (if ((after changes).inner.find? key).isSome then (after changes).inner.find? key
        else (after changes).outer.find? key) ∧
    ((after changes).binds key = true ↔ ((after changes).find? key).isSome = true) ∧
    (after changes).inner.size = ((enteredInside changes).map Prod.fst).toFinset.card ∧
    (after changes).outer.size = ((enteredOutside changes).map Prod.fst).toFinset.card := by
  have hempty : ({} : Table).find? key = none := rfl
  refine ⟨?_, ?_, ?_, ?_, ?_, ?_⟩
  · rw [inner_after, Table.find?_insertAll, hempty, Option.or_none]
  · rw [outer_after, Table.find?_insertAll, hempty, Option.or_none]
  · rw [find?]
    cases (after changes).inner.find? key with
    | none => rfl
    | some binding => rfl
  · rw [binds_eq_isSome_find?]
  · rw [inner_after, Table.size_insertAll_empty]
  · rw [outer_after, Table.size_insertAll_empty]

-- A plain alias is filed under the last segment. With a group each branch is, and a new name is
-- passed over.
example : (Declaration.aliasing ⟨"Foo", ["Bar"]⟩ none []).bindings =
    [(⟨"Bar", []⟩, ⟨⟨"Foo", ["Bar"]⟩, .unrestricted⟩)] := by decide

example : (Declaration.aliasing ⟨"Foo", []⟩ (some "F") [⟨"A", []⟩, ⟨"B", ["C"]⟩]).bindings =
    [(⟨"A", []⟩, ⟨⟨"Foo", ["A"]⟩, .unrestricted⟩),
      (⟨"C", []⟩, ⟨⟨"Foo", ["B", "C"]⟩, .unrestricted⟩)] := by decide

end Scope

end CallAudit
