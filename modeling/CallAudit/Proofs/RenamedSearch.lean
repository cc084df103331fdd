import Mathlib.Logic.Equiv.Basic
import CallAudit.Proofs.Renaming
import CallAudit.Proofs.Simulation

/-!
# Searching under new names

A search gives the same answer after all names in the tree and in the query are changed, as long as
different names stay different and atoms keep theirs. The two walks are then in the same function up
to its new name, and whatever a key is bound to in one scope, its new name is bound to the same under
new names in the other. The filters of the two bindings need not be renamed one into the other, for
they are kept in an order that new names may change; they let the same functions through.

## Main definitions

* `Binding.Renamed`, `Table.Renamed`, `Scope.Renamed`: what is in scope, under new names.

## Main statements

* `Table.Renamed.insertAll`: declarations keep the relation.
* `Scope.Renamed.isCallTo`: matching under new names.
* `Query.occursIn_rename`: searching under new names.
-/

namespace CallAudit

variable {ρ : Renaming}

structure Binding.Renamed (ρ : Renaming) (b b' : Binding) : Prop where
  path : b'.path = b.path.rename ρ
  filter : ∀ f, b'.filter.admits (f.rename ρ) = b.filter.admits f

/-- The entries of a renamed tree are those of the tree, one by one, under new names. -/
theorem Tree.entries_rename (ρ : Renaming) (t : Tree) :
    List.Forall₂ (fun e e' => e'.1 = e.1.rename ρ ∧ e.2.Renamed ρ e'.2)
      t.entries (t.rename ρ).entries := by
  cases t with
  | declare d =>
    change List.Forall₂ _ d.entries (d.rename ρ).entries
    rw [Declaration.entries_eq_bindings, Declaration.entries_eq_bindings, Declaration.bindings,
      Declaration.bindings, Declaration.modules_rename, List.map_map, List.forall₂_map_left_iff,
      List.forall₂_map_right_iff, List.forall₂_same]
    intro full _
    exact ⟨d.keyOf_rename ρ full, rfl, d.filter_rename ρ⟩
  | _ => exact .nil

namespace Table

/-- What a key is bound to in `t`, its new name is bound to in `t'`, under new names. -/
def Renamed (ρ : Renaming) (t t' : Table) : Prop :=
  ∀ key, Option.Rel (Binding.Renamed ρ) (t.find? key) (t'.find? (key.rename ρ))

variable {t t' : Table}

theorem renamed_empty (ρ : Renaming) : Renamed ρ {} {} := fun _ => .none

theorem Renamed.insert (h : t.Renamed ρ t') (key : ModuleName) {b b' : Binding}
    (hb : b.Renamed ρ b') : (t.insert key b).Renamed ρ (t'.insert (key.rename ρ) b') := by
  intro other
  by_cases hkey : other = key
  · rw [hkey, find?_insert_self, find?_insert_self]
    exact .some hb
  · have hrenamed : other.rename ρ ≠ key.rename ρ := (ModuleName.rename_injective ρ).ne hkey
    rw [find?_insert_of_ne t b hkey, find?_insert_of_ne t' b' hrenamed]
    exact h other

theorem Renamed.insertAll (h : t.Renamed ρ t') {es es' : List (ModuleName × Binding)}
    (hes : List.Forall₂ (fun e e' => e'.1 = e.1.rename ρ ∧ e.2.Renamed ρ e'.2) es es') :
    (t.insertAll es).Renamed ρ (t'.insertAll es') := by
  induction hes generalizing t t' with
  | nil => exact h
  | @cons e e' es es' he _ ih =>
    obtain ⟨hkey, hbinding⟩ := he
    apply ih
    change (t.insert e.1 e.2).Renamed ρ (t'.insert e'.1 e'.2)
    rw [hkey]
    exact h.insert e.1 hbinding

end Table

structure Scope.Renamed (ρ : Renaming) (s s' : Scope) : Prop where
  outer : s.outer.Renamed ρ s'.outer
  inner : s.inner.Renamed ρ s'.inner

namespace Scope.Renamed

variable {s s' : Scope}

theorem find? (h : s.Renamed ρ s') (key : ModuleName) :
    Option.Rel (Binding.Renamed ρ) (s.find? key) (s'.find? (key.rename ρ)) := by
  have hinner := h.inner key
  rw [Scope.find?, Scope.find?]
  generalize s.inner.find? key = own, s'.inner.find? (key.rename ρ) = own' at hinner ⊢
  cases hinner with
  | some hb => exact .some hb
  | none => exact h.outer key

theorem declare (h : s.Renamed ρ s') (t : Tree) (inFunction : Bool) :
    (s.declare t inFunction).Renamed ρ (s'.declare (t.rename ρ) inFunction) := by
  cases inFunction with
  | false => exact ⟨h.outer.insertAll (t.entries_rename ρ), h.inner⟩
  | true => exact ⟨h.outer, h.inner.insertAll (t.entries_rename ρ)⟩

theorem endFunction (h : s.Renamed ρ s') : s.endFunction.Renamed ρ s'.endFunction :=
  ⟨h.outer, Table.renamed_empty ρ⟩

/-- Bindings are asked the same under old and new names if related ones answer alike. -/
theorem any_find? (h : s.Renamed ρ s') (key : ModuleName) {P P' : Binding → Bool}
    (hP : ∀ b b', b.Renamed ρ b' → P' b' = P b) :
    (s'.find? (key.rename ρ)).any P' = (s.find? key).any P := by
  have hfind := h.find? key
  generalize s.find? key = bound, s'.find? (key.rename ρ) = bound' at hfind ⊢
  cases hfind with
  | none => rfl
  | some hb => exact hP _ _ hb

theorem aliasReaches (h : s.Renamed ρ s') (written target : ModuleName) :
    s'.aliasReaches (written.rename ρ) (target.rename ρ) = s.aliasReaches written target := by
  rw [aliasReaches_eq_any, aliasReaches_eq_any, ModuleName.outermost_rename]
  apply h.any_find?
  intro b b' hb
  have hextend : b'.path.extend (written.rename ρ).rest =
      (b.path.extend written.rest).rename ρ := by
    rw [hb.path, ← ModuleName.extend_rename]
    rfl
  rw [hextend]
  exact (ModuleName.rename_injective ρ).beq_eq

theorem importReaches (h : s.Renamed ρ s') (written target : ModuleName) :
    s'.importReaches (written.rename ρ) (target.rename ρ) = s.importReaches written target := by
  rw [Scope.importReaches, Scope.importReaches, ModuleName.without_rename]
  cases target.without written with
  | none => rfl
  | some remainder =>
    change s'.binds (remainder.rename ρ) = s.binds remainder
    rw [binds_eq_any, binds_eq_any]
    exact h.any_find? remainder fun _ _ _ => rfl

theorem admits (h : s.Renamed ρ s') (target : ModuleName) (f : FunctionRef) :
    s'.admits (target.rename ρ) (f.rename ρ) = s.admits target f := by
  rw [admits_eq_any, admits_eq_any]
  exact h.any_find? target fun _ _ hb => hb.filter f

theorem matchesCallee (h : s.Renamed ρ s') (sig : Signature) (callee : Callee) (arity : Nat) :
    (sig.rename ρ).matchesCallee (callee.rename ρ) arity s' = sig.matchesCallee callee arity s := by
  obtain ⟨module?, pattern⟩ := sig
  cases module? with
  | none =>
    cases callee with
    | bare name => exact pattern.admits_rename ρ name
    | ofAtom atom name => rfl
    | ofModule written name => rfl
  | some target =>
    have hequal : ∀ m : ModuleName, (m.rename ρ == target.rename ρ) = (m == target) := by
      intro m
      exact (ModuleName.rename_injective ρ).beq_eq
    cases callee with
    | bare name =>
      have hadmits : s'.admits (target.rename ρ) ⟨ρ.function name, arity⟩ =
          s.admits target ⟨name, arity⟩ := h.admits target ⟨name, arity⟩
      simp only [Signature.rename, Signature.matchesCallee, Callee.rename, Option.map_some,
        NamePattern.admits_rename, hadmits]
    | ofAtom atom name =>
      -- An atom keeps its name, so it is the new name of the target only if it was the target.
      have hatom : (target.rename ρ == ModuleName.atom atom) = (target == ModuleName.atom atom) := by
        have hsame := hequal (ModuleName.atom atom)
        rw [ModuleName.atom_rename] at hsame
        rw [BEq.comm, hsame, BEq.comm]
      simp only [Signature.rename, Signature.matchesCallee, Callee.rename, Option.map_some,
        NamePattern.admits_rename, hatom]
    | ofModule written name =>
      simp only [Signature.rename, Signature.matchesCallee, Callee.rename, Option.map_some,
        NamePattern.admits_rename, hequal, h.aliasReaches, h.importReaches]

theorem isCallTo (h : s.Renamed ρ s') (t : Tree) (sig : Option Signature) :
    (t.rename ρ).isCallTo (sig.map (Signature.rename ρ)) s' = t.isCallTo sig s := by
  cases t with
  | call callee args =>
    cases sig with
    | none => rfl
    | some sig =>
      have hlength : (Tree.renameAll ρ args).length = args.length := by
        rw [Tree.renameAll_eq_map, List.length_map]
      change (sig.rename ρ).matchesCallee (callee.rename ρ) (Tree.renameAll ρ args).length s' =
        sig.matchesCallee callee args.length s
      rw [hlength, h.matchesCallee]
  | _ => rfl

end Scope.Renamed

theorem encloses_rename (ρ : Renaming) (current : Option String) (sig : Option Signature) :
    encloses (current.map ρ.function) (sig.map (Signature.rename ρ)) = encloses current sig := by
  cases current with
  | none => rfl
  | some name =>
    cases sig with
    | none => rfl
    | some sig => exact sig.name.isName_rename ρ name

namespace Query

theorem hits_rename {s s' : Scope} (h : s.Renamed ρ s') (q : Query) (t : Tree)
    (current : Option String) :
    (q.rename ρ).hits (t.rename ρ) (current.map ρ.function) s' = q.hits t current s := by
  have hcaller : (q.rename ρ).caller.isNone = q.caller.isNone := Option.isNone_map
  simp only [hits, hcaller]
  simp only [rename, h.isCallTo, encloses_rename]

/-- Searches under old and new names stay in step, and find the same. -/
theorem rename_simulation (ρ : Renaming) (q : Query) :
    Simulation q (q.rename ρ) (fun t u => u = t.rename ρ) (fun c c' => c' = c.map ρ.function)
      (Scope.Renamed ρ) Eq where
  children := by
    rintro t _ rfl
    rw [Tree.children_rename, List.forall₂_map_right_iff, List.forall₂_same]
    exact fun _ _ => rfl
  defines := by
    rintro t _ rfl
    rw [Tree.definesFunction, Tree.definesFunction, Tree.definedName?_rename, Option.isSome_map]
  outside := rfl
  current := by
    rintro t _ c _ rfl rfl
    rw [Tree.definedName?_rename, Option.map_or]
  declare := by
    rintro t _ c _ s s' rfl rfl hs
    rw [Option.isSome_map]
    exact hs.declare t c.isSome
  endFunction hs := hs.endFunction
  hits := by
    rintro t _ c _ s s' rfl rfl hs
    exact (hits_rename hs q t c).symm
  either := by
    rintro a _ b _ rfl rfl
    rfl

/-- A search for a renamed query in a renamed tree gives the same answer as before. -/
theorem occursIn_rename (ρ : Renaming) (q : Query) (t : Tree) :
    (q.rename ρ).occursIn (t.rename ρ) = q.occursIn t :=
  ((rename_simulation ρ q).occursIn ⟨Table.renamed_empty ρ, Table.renamed_empty ρ⟩ rfl rfl).symm

end Query

/-- The renaming that lets two segments and two functions trade names. -/
def Renaming.swapped : Renaming where
  segment := Equiv.swap "Repo" "Store"
  function := Equiv.swap "all" "run"
  segment_injective := (Equiv.swap "Repo" "Store").injective
  function_injective := (Equiv.swap "all" "run").injective
  segment_atom := by
    intro cs
    have hfirst : ∀ s : String, s.toList.head? ≠ some ':' → String.ofList (':' :: cs) ≠ s := by
      rintro _ hs rfl
      exact hs (by rw [String.toList_ofList]; rfl)
    exact Equiv.swap_apply_of_ne_of_ne (hfirst "Repo" (by decide)) (hfirst "Store" (by decide))

namespace Query

/-- An alias, an import with a filter and calls through both and in an atom. -/
def namedModule : Tree :=
  .other (some "defmodule") [
    .declare (.aliasing ⟨"App", []⟩ none [⟨"Repo", []⟩, ⟨"Store", []⟩]),
    .declare (.importing ⟨"App", ["Repo"]⟩ (some (.only [⟨"all", 0⟩, ⟨"run", 1⟩])) []),
    .define .public "run" [] [
      .call (.ofModule ⟨"Repo", []⟩ "all") [],
      .call (.ofAtom "lists" "all") []]]

theorem occursIn_rename_namedModule :
    let q : Query := ⟨some (.qualified ⟨"App", ["Repo"]⟩ "all"), some (.unqualified "run")⟩
    q.rename .swapped =
        ⟨some (.qualified ⟨"App", ["Store"]⟩ "run"), some (.unqualified "all")⟩ ∧
      q.occursIn namedModule = true ∧
      (q.rename .swapped).occursIn (namedModule.rename .swapped) = true := by
  intro q
  have hquery : q.rename .swapped =
      ⟨some (.qualified ⟨"App", ["Store"]⟩ "run"), some (.unqualified "all")⟩ := by decide
  have hfound : q.occursIn namedModule = true := by decide
  exact ⟨hquery, hfound, (occursIn_rename .swapped q namedModule).trans hfound⟩

end Query

end CallAudit
