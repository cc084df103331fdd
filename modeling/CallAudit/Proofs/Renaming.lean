import Mathlib.Data.List.Basic
import CallAudit.Proofs.History
import CallAudit.Search.Walk

/-!
# New names

Names in a tree and in a query can be changed throughout: the segments of module names by one map,
the names of functions by another. Both maps take different names to different names. A segment that
starts with a colon stands for an atom, and the name of an atom in a call is not changed, so these
segments stay as they are.

All that the library does with names then gives the new names for what it gave before: it puts
segments together and takes them apart, but never looks into them.

## Main definitions

* `Renaming`: the two maps.
* `Tree.rename`, `Query.rename`: a tree and a query under new names.

## Main statements

* `ModuleName.without_rename`: taking away segments, under new names.
* `Declaration.modules_rename`, `Declaration.keyOf_rename`: what is declared, under new names.
* `Tree.children_rename`: the children of a renamed tree.
-/

namespace CallAudit

/-- New names for segments of modules and for functions. -/
structure Renaming where
  segment : String → String
  function : String → String
  segment_injective : Function.Injective segment
  function_injective : Function.Injective function
  /-- What starts with a colon stays. -/
  segment_atom : ∀ cs : List Char,
    segment (String.ofList (':' :: cs)) = String.ofList (':' :: cs)

namespace ModuleName

variable (ρ : Renaming)

def rename (m : ModuleName) : ModuleName := ⟨ρ.segment m.first, m.rest.map ρ.segment⟩

theorem segments_rename (m : ModuleName) : (m.rename ρ).segments = m.segments.map ρ.segment := rfl

theorem rename_injective : Function.Injective (rename ρ) := by
  rintro ⟨first, rest⟩ ⟨first', rest'⟩ h
  obtain ⟨hfirst, hrest⟩ := ModuleName.mk.inj h
  obtain rfl : first = first' := ρ.segment_injective hfirst
  obtain rfl : rest = rest' := List.map_injective_iff.mpr ρ.segment_injective hrest
  rfl

theorem outermost_rename (m : ModuleName) : (m.rename ρ).outermost = m.outermost.rename ρ := rfl

theorem last_rename (m : ModuleName) : (m.rename ρ).last = ρ.segment m.last := by
  simp only [last, segments_rename, List.getLast_map]

theorem extend_rename (m : ModuleName) (more : List String) :
    (m.rename ρ).extend (more.map ρ.segment) = (m.extend more).rename ρ := by
  simp only [extend, rename, List.map_append]

theorem append_rename (m n : ModuleName) :
    (m.rename ρ).append (n.rename ρ) = (m.append n).rename ρ := by
  rw [append, segments_rename, extend_rename, append]

theorem ofSegments?_rename (segments : List String) :
    ofSegments? (segments.map ρ.segment) = (ofSegments? segments).map (rename ρ) := by
  cases segments with
  | nil => rfl
  | cons first rest => rfl

/-- Taking away segments compares them and nothing else. -/
theorem without_rename (m n : ModuleName) :
    (m.rename ρ).without (n.rename ρ) = (m.without n).map (rename ρ) := by
  rw [without, without, ← ofSegments?_rename, List.map_foldl_erase ρ.segment_injective,
    segments_rename, segments_rename, List.foldl_map]

theorem atom_rename (name : String) : (atom name).rename ρ = atom name := by
  rw [rename, atom, ρ.segment_atom]
  rfl

end ModuleName

namespace FunctionRef

variable (ρ : Renaming)

def rename (f : FunctionRef) : FunctionRef := ⟨ρ.function f.name, f.arity⟩

theorem rename_injective : Function.Injective (rename ρ) := by
  rintro ⟨name, arity⟩ ⟨name', arity'⟩ h
  obtain ⟨hname, harity⟩ := FunctionRef.mk.inj h
  obtain rfl : name = name' := ρ.function_injective hname
  obtain rfl : arity = arity' := harity
  rfl

end FunctionRef

namespace NamePattern

variable (ρ : Renaming)

/-- The wildcard stays. -/
def rename : NamePattern → NamePattern
  | .exactly name => .exactly (ρ.function name)
  | .any => .any

theorem admits_rename (pattern : NamePattern) (name : String) :
    (pattern.rename ρ).admits (ρ.function name) = pattern.admits name := by
  cases pattern with
  | exactly expected => exact ρ.function_injective.beq_eq
  | any => rfl

theorem isName_rename (pattern : NamePattern) (name : String) :
    (pattern.rename ρ).isName (ρ.function name) = pattern.isName name := by
  cases pattern with
  | exactly expected => exact admits_rename ρ (.exactly expected) name
  | any => rfl

end NamePattern

def Signature.rename (ρ : Renaming) (sig : Signature) : Signature :=
  ⟨sig.module?.map (ModuleName.rename ρ), sig.name.rename ρ⟩

def Query.rename (ρ : Renaming) (q : Query) : Query :=
  ⟨q.called.map (Signature.rename ρ), q.caller.map (Signature.rename ρ)⟩

def ImportRule.rename (ρ : Renaming) : ImportRule → ImportRule
  | .only functions => .only (functions.map (FunctionRef.rename ρ))
  | .except functions => .except (functions.map (FunctionRef.rename ρ))
  | .onlyKind kind => .onlyKind kind

/-- The filter of a renamed rule lets the same functions through, under their new names. -/
theorem Filter.admits_ofRule_rename (ρ : Renaming) (rule : Option ImportRule) (f : FunctionRef) :
    (Filter.ofRule (rule.map (ImportRule.rename ρ))).admits (f.rename ρ) =
      (Filter.ofRule rule).admits f := by
  -- The new names may stand in another order, with the same functions among them.
  have hcontains : ∀ fs : List FunctionRef,
      (FunctionRef.sortedSet (fs.map (FunctionRef.rename ρ))).contains (f.rename ρ) =
        (FunctionRef.sortedSet fs).contains f := by
    intro fs
    rw [Bool.eq_iff_iff, List.contains_iff_mem, List.contains_iff_mem, FunctionRef.mem_sortedSet,
      FunctionRef.mem_sortedSet, List.mem_map_of_injective (FunctionRef.rename_injective ρ)]
  rcases rule with _ | functions | functions | kind
  · rfl
  · exact hcontains functions
  · exact congrArg not (hcontains functions)
  · rfl

namespace Declaration

variable (ρ : Renaming)

/-- The name that an alias gives is a segment. -/
def rename : Declaration → Declaration
  | .importing path rule group =>
    .importing (path.rename ρ) (rule.map (ImportRule.rename ρ)) (group.map (ModuleName.rename ρ))
  | .aliasing path name group =>
    .aliasing (path.rename ρ) (name.map ρ.segment) (group.map (ModuleName.rename ρ))

theorem fullNames_rename (path : ModuleName) (group : List ModuleName) :
    fullNames (path.rename ρ) (group.map (ModuleName.rename ρ)) =
      (fullNames path group).map (ModuleName.rename ρ) := by
  cases group with
  | nil => rfl
  | cons branch group =>
    have happend : (path.rename ρ).append ∘ ModuleName.rename ρ =
        ModuleName.rename ρ ∘ path.append := funext (ModuleName.append_rename ρ path)
    change ((branch :: group).map _).map _ = ((branch :: group).map _).map _
    rw [List.map_map, List.map_map, happend]

theorem modules_rename (d : Declaration) :
    (d.rename ρ).modules = d.modules.map (ModuleName.rename ρ) := by
  cases d with
  | importing path rule group =>
    simp only [rename, modules, ← fullNames_eq, fullNames_rename]
  | aliasing path name group =>
    simp only [rename, modules, ← fullNames_eq, fullNames_rename]

theorem keyOf_rename (d : Declaration) (full : ModuleName) :
    (d.rename ρ).keyOf (full.rename ρ) = (d.keyOf full).rename ρ := by
  have hlast : (⟨(full.rename ρ).rest.getLastD (full.rename ρ).first, []⟩ : ModuleName) =
      ModuleName.rename ρ ⟨full.rest.getLastD full.first, []⟩ := by
    rw [← ModuleName.innermost_eq, ← ModuleName.innermost_eq, ModuleName.innermost,
      ModuleName.last_rename]
    rfl
  cases d with
  | importing path rule group => rfl
  | aliasing path name group =>
    cases name with
    | none => exact hlast
    | some name =>
      cases group with
      | nil => rfl
      | cons branch group => exact hlast

theorem filter_rename (d : Declaration) (f : FunctionRef) :
    (d.rename ρ).filter.admits (f.rename ρ) = d.filter.admits f := by
  cases d with
  | importing path rule group => exact Filter.admits_ofRule_rename ρ rule f
  | aliasing path name group => rfl

end Declaration

/-- The name of an atom stays. -/
def Callee.rename (ρ : Renaming) : Callee → Callee
  | .bare name => .bare (ρ.function name)
  | .ofAtom atom name => .ofAtom atom (ρ.function name)
  | .ofModule module name => .ofModule (module.rename ρ) (ρ.function name)

namespace Tree

mutual

/-- A tree under new names. Variables and literals are no names of functions and stay. -/
def rename (ρ : Renaming) : Tree → Tree
  | .call callee args => .call (callee.rename ρ) (renameAll ρ args)
  | .callOn receiver name args => .callOn (rename ρ receiver) (ρ.function name) (renameAll ρ args)
  | .define visibility name params body =>
    .define visibility (ρ.function name) (renameAll ρ params) (renameAll ρ body)
  | .head visibility name params => .head visibility (ρ.function name) (renameAll ρ params)
  | .declare declaration => .declare (declaration.rename ρ)
  | .var name => .var name
  | .literal value => .literal value
  | .other form children => .other form (renameAll ρ children)
termination_by structural t => t

def renameAll (ρ : Renaming) : List Tree → List Tree
  | [] => []
  | t :: ts => rename ρ t :: renameAll ρ ts
termination_by structural ts => ts

end

variable (ρ : Renaming)

theorem renameAll_eq_map (ts : List Tree) : renameAll ρ ts = ts.map (rename ρ) := by
  induction ts with
  | nil => rfl
  | cons t ts ih => rw [renameAll, ih, List.map_cons]

theorem children_rename (t : Tree) : (t.rename ρ).children = t.children.map (rename ρ) := by
  cases t with
  | define visibility name params body =>
    simp only [rename, children, renameAll_eq_map, List.map_append]
  | callOn receiver name args => simp only [rename, children, renameAll_eq_map, List.map_cons]
  | call callee args => simp only [rename, children, renameAll_eq_map]
  | head visibility name params => simp only [rename, children, renameAll_eq_map]
  | other form ts => simp only [rename, children, renameAll_eq_map]
  | declare declaration => rfl
  | var name => rfl
  | literal value => rfl

theorem definedName?_rename (t : Tree) :
    (t.rename ρ).definedName? = t.definedName?.map ρ.function := by
  cases t <;> rfl

end Tree

end CallAudit
