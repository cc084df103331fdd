import CallAudit.Proofs.History
import CallAudit.Proofs.Matching

/-!
# Calls of a bare name

A call of a bare name matches a signature with a module if the scope has a binding for the module
that lets the name through. Imports make such bindings, with a filter. Aliases make bindings too,
which are meant for calls in a module, but a look-up does not tell them apart: an alias lets every
name through under its key.

An alias therefore never takes a match away. It adds one for the signatures whose module is one of
its keys, which have one segment each, unless its binding stands behind one of the function.

## Main statements

* `Scope.find?_declare`: looking up a key after a declaration.
* `Scope.admits_declare_alias_iff`: what may be called by its bare name after an alias.
* `Tree.isCallTo_bare_declare_alias_iff`: which bare calls match after an alias.
-/

namespace CallAudit

namespace Declaration

/-- The keys under which a declaration enters its modules. -/
def keys (d : Declaration) : List ModuleName := d.modules.map d.keyOf

theorem rest_of_mem_keys_aliasing {path : ModuleName} {rename : Option String}
    {group : List ModuleName} {key : ModuleName} (h : key ∈ (aliasing path rename group).keys) :
    key.rest = [] := by
  obtain ⟨full, -, rfl⟩ := List.mem_map.mp h
  cases rename with
  | none => rfl
  | some name =>
    cases group with
    | nil => rfl
    | cons branch group => rfl

end Declaration

theorem mem_of_lastFor?_eq_some {entries : List (ModuleName × Binding)} {key : ModuleName}
    {binding : Binding} (h : lastFor? entries key = some binding) : (key, binding) ∈ entries := by
  obtain ⟨⟨k, b⟩, hlast, rfl⟩ := Option.map_eq_some_iff.mp h
  obtain ⟨hmem, hkey⟩ := List.mem_filter.mp (List.mem_of_getLast? hlast)
  obtain rfl : k = key := by simpa using hkey
  exact hmem

/-- Under its keys, and nowhere else, a declaration makes bindings with its filter. -/
theorem Declaration.lastFor?_entries (d : Declaration) (key : ModuleName) :
    key ∉ d.keys ∧ lastFor? d.entries key = none ∨
      key ∈ d.keys ∧ ∃ binding, lastFor? d.entries key = some binding ∧
        binding.filter = d.filter := by
  have hkeys : (lastFor? d.bindings key).isSome = true ↔ key ∈ d.keys := by
    rw [isSome_lastFor?_iff, bindings, List.map_map]
    rfl
  rw [entries_eq_bindings]
  cases hlast : lastFor? d.bindings key with
  | none =>
    refine Or.inl ⟨?_, rfl⟩
    rw [← hkeys, hlast]
    decide
  | some binding =>
    refine Or.inr ⟨?_, binding, rfl, ?_⟩
    · rw [← hkeys, hlast]
      rfl
    · obtain ⟨full, -, hfull⟩ := List.mem_map.mp (mem_of_lastFor?_eq_some hlast)
      rw [← (Prod.mk.inj hfull).2]

namespace Scope

/-- A declaration in a function comes before all that is in scope, one in the module comes behind what
the function has. -/
theorem find?_declare (s : Scope) (t : Tree) (inFunction : Bool) (key : ModuleName) :
    (s.declare t inFunction).find? key =
      if inFunction then (lastFor? t.entries key).or (s.find? key)
      else (s.inner.find? key).or ((lastFor? t.entries key).or (s.outer.find? key)) := by
  cases inFunction with
  | false => simp [find?, declare, Table.find?_insertAll]
  | true => simp [find?, declare, Table.find?_insertAll, Option.or_assoc]

/-- After an alias, a function of a module may be called by its bare name if it could before, or if
the module is a key of the alias and the function around has no binding of its own for it. -/
theorem admits_declare_alias_iff (s : Scope) (path : ModuleName) (rename : Option String)
    (group : List ModuleName) (inFunction : Bool) (target : ModuleName) (f : FunctionRef) :
    (s.declare (.declare (.aliasing path rename group)) inFunction).admits target f = true ↔
      s.admits target f = true ∨ target ∈ (Declaration.aliasing path rename group).keys ∧
        (inFunction = true ∨ s.inner.contains target = false) := by
  rw [admits_eq_any, admits_eq_any, find?_declare, Tree.entries]
  rcases (Declaration.aliasing path rename group).lastFor?_entries target with
    ⟨hnot, hlast⟩ | ⟨hmem, binding, hlast, hfilter⟩
  · rw [hlast, Option.none_or, Option.none_or, ← find?, ite_self]
    simp [hnot]
  · have hadmits : binding.filter.admits f = true := by
      rw [hfilter]
      rfl
    rw [hlast]
    cases inFunction with
    | true => simp [hadmits, hmem]
    | false =>
      -- A binding of the function hides the alias in the module.
      cases hinner : s.inner.find? target with
      | none => simp [hadmits, hmem, Table.contains, hinner]
      | some own => simp [Table.contains, hinner, find?]

end Scope

namespace Tree

theorem isCallTo_bare (name : String) (args : List Tree) (target : ModuleName)
    (pattern : NamePattern) (scope : Scope) :
    (Tree.call (.bare name) args).isCallTo (some ⟨some target, pattern⟩) scope =
      (pattern.admits name && scope.admits target ⟨name, args.length⟩) := rfl

/-- After an alias, a call of a bare name matches exactly if it did before, or if the signature has the
name and, for its module, a single segment that is a key of the alias and that the function around
does not hide. So an alias takes no match away, and changes nothing for the other modules. -/
theorem isCallTo_bare_declare_alias_iff (s : Scope) (path : ModuleName) (rename : Option String)
    (group : List ModuleName) (inFunction : Bool) (name : String) (args : List Tree)
    (sig : Signature) :
    (Tree.call (.bare name) args).isCallTo (some sig)
        (s.declare (.declare (.aliasing path rename group)) inFunction) = true ↔
      (Tree.call (.bare name) args).isCallTo (some sig) s = true ∨
        ∃ key : String, sig.module? = some ⟨key, []⟩ ∧
          ⟨key, []⟩ ∈ (Declaration.aliasing path rename group).keys ∧
          (inFunction = true ∨ s.inner.contains ⟨key, []⟩ = false) ∧
          sig.name.admits name = true := by
  obtain ⟨module?, pattern⟩ := sig
  cases module? with
  | none =>
    have hsame : ∀ scope, (Tree.call (.bare name) args).isCallTo (some ⟨none, pattern⟩) scope =
        pattern.admits name := fun _ => rfl
    simp [hsame]
  | some target =>
    rw [isCallTo_bare, isCallTo_bare, Bool.and_eq_true, Bool.and_eq_true,
      Scope.admits_declare_alias_iff]
    constructor
    · rintro ⟨hname, hbefore | ⟨hkey, hhidden⟩⟩
      · exact Or.inl ⟨hname, hbefore⟩
      · obtain ⟨first, rest⟩ := target
        obtain rfl : rest = [] := Declaration.rest_of_mem_keys_aliasing hkey
        exact Or.inr ⟨first, rfl, hkey, hhidden, hname⟩
    · rintro (⟨hname, hbefore⟩ | ⟨key, hmodule, hkey, hhidden, hname⟩)
      · exact ⟨hname, Or.inl hbefore⟩
      · obtain rfl : target = ⟨key, []⟩ := Option.some.inj hmodule
        exact ⟨hname, Or.inr ⟨hkey, hhidden⟩⟩

/-- An alias of `Foo.Math` makes `pow()` a call of `Math.pow`, if nothing is imported and also if
`Math` is imported without `pow`. -/
theorem isCallTo_bare_aliased :
    let call := Tree.call (.bare "pow") []
    let sig := some (Signature.qualified ⟨"Math", []⟩ "pow")
    let declared := Tree.declare (.aliasing ⟨"Foo", ["Math"]⟩ none [])
    let restricted := Scope.after [
      .declare (.declare (.importing ⟨"Math", []⟩ (some (.only [⟨"sqrt", 1⟩])) [])) false]
    call.isCallTo sig {} = false ∧ call.isCallTo sig (({} : Scope).declare declared false) = true ∧
      call.isCallTo sig restricted = false ∧
      call.isCallTo sig (restricted.declare declared false) = true := by
  decide

end Tree

end CallAudit
