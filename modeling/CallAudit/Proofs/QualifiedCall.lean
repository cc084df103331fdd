import CallAudit.Proofs.History
import CallAudit.Proofs.WalkState

/-!
# Calls of a name in a module

A call in the very module that is searched for matches in every scope. What can hide it from a
search is the rule that a function does not count as calling itself, which looks at names alone: a
call of `all` in a function `all` is passed over, whichever module it names.

A call in a module that has nothing in common with the one searched for matches in one case only.
Taking away its segments from the searched module takes away nothing, and what is left, which is that
module itself, may be in scope.

## Main statements

* `Query.occursIn_of_qualified_call`: a call in the searched module is found.
* `ModuleName.without_of_disjoint`: taking away segments that do not occur.
* `Tree.isCallTo_unrelated_iff`: when a call in an unrelated module matches.
-/

namespace CallAudit

theorem NamePattern.admits_ofName (name : String) : (ofName name).admits name = true := by
  by_cases h : name = "_"
  · simp [ofName, h, admits]
  · simp [ofName, h, admits]

theorem NamePattern.ofName_eq_exactly_iff {name other : String} :
    ofName name = .exactly other ↔ name ≠ "_" ∧ name = other := by
  by_cases h : name = "_"
  · simp [ofName, h]
  · simp [ofName, h]

theorem Tree.isCallTo_ofModule (written target : ModuleName) (name : String) (args : List Tree)
    (pattern : NamePattern) (scope : Scope) :
    (Tree.call (.ofModule written name) args).isCallTo (some ⟨some target, pattern⟩) scope =
      (pattern.admits name && (written == target || scope.aliasReaches written target ||
        scope.importReaches written target)) := rfl

theorem Tree.isCallTo_qualified (module : ModuleName) (name : String) (args : List Tree)
    (scope : Scope) :
    (Tree.call (.ofModule module name) args).isCallTo (some (.qualified module name)) scope =
      true := by
  rw [Signature.qualified, isCallTo_ofModule, NamePattern.admits_ofName, beq_self_eq_true]
  rfl

theorem encloses_qualified_eq_false {current : Option String} {name : String}
    (h : name = "_" ∨ current ≠ some name) (module : ModuleName) :
    encloses current (some (.qualified module name)) = false := by
  rw [Bool.eq_false_iff, ne_eq, encloses_iff]
  rintro ⟨other, rfl, hpattern⟩
  obtain ⟨hname, rfl⟩ := NamePattern.ofName_eq_exactly_iff.mp hpattern
  rcases h with hwildcard | hother
  · exact hname hwildcard
  · exact hother rfl

namespace Query

/-- A call in the searched module is found, wherever it stands and whatever else is in the tree, if
the innermost function around it does not have the name that is called. The wildcard is the name of
no function. -/
theorem occursIn_of_qualified_call (root : Tree) (module : ModuleName) (name : String)
    (args : List Tree) (c : Place)
    (hcall : root.node? c = some (.call (.ofModule module name) args))
    (hself : name = "_" ∨ root.innermostName? c ≠ some name) :
    occursIn ⟨some (.qualified module name), none⟩ root = true := by
  obtain ⟨e, he, hnode, hcurrent⟩ := root.exists_event {} hcall rfl
  rw [Option.or_none] at hcurrent
  have houtside : name = "_" ∨ e.current ≠ some name := by
    rcases hself with hname | hself
    · exact Or.inl hname
    · rcases hcurrent with hnone | hinner
      · exact Or.inr (by simp [hnone])
      · exact Or.inr (by rwa [hinner])
  rw [occursIn, found_walk, Bool.false_or, List.any_eq_true]
  refine ⟨e, he, hits_iff.mpr ⟨?_, encloses_qualified_eq_false houtside module, Or.inl rfl⟩⟩
  rw [hnode]
  exact Tree.isCallTo_qualified module name args e.scope

/-- A function `all` with another function inside, which has another `Repo` in scope and calls
`Repo.all` to find the receiver of a call. -/
def receiverCall : Tree :=
  .define .public "all" [] [
    .define .private "each" [] [
      .declare (.aliasing ⟨"Other", ["Repo"]⟩ none []),
      .callOn (.call (.ofModule ⟨"Repo", []⟩ "all") []) "size" []]]

theorem occursIn_receiverCall :
    receiverCall.node? [0, 1, 0] = some (.call (.ofModule ⟨"Repo", []⟩ "all") []) ∧
      receiverCall.innermostName? [0, 1, 0] = some "each" ∧
      occursIn ⟨some (.qualified ⟨"Repo", []⟩ "all"), none⟩ receiverCall = true := by
  have hinner : receiverCall.innermostName? [0, 1, 0] = some "each" := by decide
  refine ⟨rfl, hinner, occursIn_of_qualified_call receiverCall _ _ [] [0, 1, 0] rfl (Or.inr ?_)⟩
  rw [hinner]
  decide

/-- A function `all` that calls the `all` of a module. -/
def namesakeCall : Tree := .define .public "all" [] [.call (.ofModule ⟨"Repo", []⟩ "all") []]

/-- The call of the other `all` is taken for a call of the function itself. -/
theorem occursIn_namesakeCall :
    namesakeCall.node? [0] = some (.call (.ofModule ⟨"Repo", []⟩ "all") []) ∧
      occursIn ⟨some (.qualified ⟨"Repo", []⟩ "all"), none⟩ namesakeCall = false := by
  decide

end Query

namespace ModuleName

theorem foldl_erase_of_disjoint {taken segments : List String}
    (h : List.Disjoint taken segments) : taken.foldl List.erase segments = segments := by
  induction taken with
  | nil => rfl
  | cons segment taken ih =>
    obtain ⟨hsegment, hrest⟩ := List.disjoint_cons_left.mp h
    rw [List.foldl_cons, List.erase_of_not_mem hsegment, ih hrest]

theorem without_of_disjoint {m n : ModuleName} (h : List.Disjoint n.segments m.segments) :
    m.without n = some m := by
  rw [without, foldl_erase_of_disjoint h]
  rfl

theorem ne_of_disjoint {m n : ModuleName} (h : List.Disjoint m.segments n.segments) : m ≠ n := by
  rintro rfl
  exact h List.mem_cons_self List.mem_cons_self

end ModuleName

theorem Scope.aliasReaches_eq_false {s : Scope} {written : ModuleName}
    (h : s.binds written.outermost = false) (target : ModuleName) :
    s.aliasReaches written target = false := by
  rw [binds_eq_isSome_find?, Option.isSome_eq_false_iff, Option.isNone_iff_eq_none] at h
  rw [aliasReaches, h]

/-- A call in a module that shares no segment with the searched one, and whose first segment is not in
scope, matches exactly if the name does and the searched module itself is in scope. -/
theorem Tree.isCallTo_unrelated_iff (s : Scope) (written target : ModuleName) (name : String)
    (args : List Tree) (pattern : NamePattern)
    (hdisjoint : List.Disjoint written.segments target.segments)
    (hfirst : s.binds written.outermost = false) :
    (Tree.call (.ofModule written name) args).isCallTo (some ⟨some target, pattern⟩) s = true ↔
      pattern.admits name = true ∧ s.binds target = true := by
  have hne : (written == target) = false := by
    rw [beq_eq_false_iff_ne]
    exact ModuleName.ne_of_disjoint hdisjoint
  have hremainder : s.importReaches written target = s.binds target := by
    rw [Scope.importReaches, ModuleName.without_of_disjoint hdisjoint]
  rw [isCallTo_ofModule, hne, Scope.aliasReaches_eq_false hfirst, hremainder, Bool.false_or,
    Bool.false_or, Bool.and_eq_true]

/-- Neither an import of a part of the searched module nor an alias for it makes the call match. -/
theorem Tree.isCallTo_unrelated_partImported :
    let s := Scope.after [.declare (.declare (.importing ⟨"Foo", []⟩ none [])) false,
      .declare (.declare (.aliasing ⟨"Foo", ["Bar"]⟩ none [])) true]
    List.Disjoint (ModuleName.segments ⟨"Baz", ["Qux"]⟩) (ModuleName.segments ⟨"Foo", ["Bar"]⟩) ∧
      s.binds (ModuleName.outermost ⟨"Baz", ["Qux"]⟩) = false ∧
      ¬ (Tree.call (.ofModule ⟨"Baz", ["Qux"]⟩ "run") []).isCallTo
        (some ⟨some ⟨"Foo", ["Bar"]⟩, .any⟩) s = true := by
  intro s
  have hdisjoint : List.Disjoint (ModuleName.segments ⟨"Baz", ["Qux"]⟩)
      (ModuleName.segments ⟨"Foo", ["Bar"]⟩) := by
    simp [ModuleName.segments]
  have hfirst : s.binds (ModuleName.outermost ⟨"Baz", ["Qux"]⟩) = false := by decide
  refine ⟨hdisjoint, hfirst, ?_⟩
  rw [isCallTo_unrelated_iff s _ _ "run" [] .any hdisjoint hfirst]
  decide

/-- With the searched module imported, a call in an unrelated module is taken for a call in it. -/
theorem Tree.isCallTo_unrelated_imported :
    let s := Scope.after [.declare (.declare (.importing ⟨"Foo", ["Bar"]⟩ none [])) false]
    List.Disjoint (ModuleName.segments ⟨"Baz", []⟩) (ModuleName.segments ⟨"Foo", ["Bar"]⟩) ∧
      s.binds (ModuleName.outermost ⟨"Baz", []⟩) = false ∧
      (Tree.call (.ofModule ⟨"Baz", []⟩ "qux") []).isCallTo
        (some (.qualified ⟨"Foo", ["Bar"]⟩ "qux")) s = true := by
  refine ⟨?_, by decide, by decide⟩
  simp [ModuleName.segments]

end CallAudit
