import CallAudit.Proofs.WalkState

/-!
# Searches for related things in one tree

All searches through a tree leave the same calls in the same functions with the same scopes. What two
queries find in one tree can therefore be compared call by call, although each search stops looking
at another call.

Two comparisons are made. The wildcard admits every name that is called, but it is the name of no
function: a search for it finds what the searches for single names find, and besides the calls that
functions make to themselves. A caller, on the other hand, matters through its name alone. The calls
that are found without a caller are those found inside one of the functions of the tree, and those
outside of all functions.

## Main definitions

* `Tree.calledName?`: the name in a call.

## Main statements

* `Tree.isCallTo_eq_and`: the name in a call is matched apart from everything else.
* `Query.occursIn_wildcard`: the wildcard and the single names.
* `Query.occursIn_by_caller`: the callers of what is found.
-/

namespace CallAudit

def Callee.name : Callee → String
  | .bare name => name
  | .ofAtom _ name => name
  | .ofModule _ name => name

/-- The name in a call, on a computed receiver or not. -/
def Tree.calledName? : Tree → Option String
  | .call callee _ => some callee.name
  | .callOn _ name _ => some name
  | _ => none

theorem Signature.matchesCallee_eq_and (module? : Option ModuleName) (pattern : NamePattern)
    (callee : Callee) (arity : Nat) (scope : Scope) :
    Signature.matchesCallee ⟨module?, pattern⟩ callee arity scope =
      (pattern.admits callee.name &&
        Signature.matchesCallee ⟨module?, .any⟩ callee arity scope) := by
  cases module? with
  | none =>
    cases callee with
    | bare name => exact (Bool.and_true _).symm
    | ofAtom atom name => exact (Bool.and_false _).symm
    | ofModule written name => exact (Bool.and_false _).symm
  | some target =>
    cases callee with
    | bare name => rfl
    | ofAtom atom name =>
      change (target == ModuleName.atom atom && pattern.admits name) =
        (pattern.admits name && (target == ModuleName.atom atom && true))
      rw [Bool.and_true, Bool.and_comm]
    | ofModule written name => rfl

namespace Tree

variable {t : Tree} {module? : Option ModuleName} {scope : Scope}

/-- A node is a call of what a signature describes if the pattern admits the name in it and the rest
of the signature fits. -/
theorem isCallTo_eq_and (t : Tree) (module? : Option ModuleName) (pattern : NamePattern)
    (scope : Scope) :
    t.isCallTo (some ⟨module?, pattern⟩) scope =
      (t.calledName?.any pattern.admits && t.isCallTo (some ⟨module?, .any⟩) scope) := by
  cases t with
  | call callee args => exact Signature.matchesCallee_eq_and module? pattern callee args.length scope
  | callOn receiver name args => exact (Bool.and_false _).symm
  | _ => rfl

theorem isCallTo_exactly_iff {name : String} :
    t.isCallTo (some ⟨module?, .exactly name⟩) scope = true ↔
      t.calledName? = some name ∧ t.isCallTo (some ⟨module?, .any⟩) scope = true := by
  rw [isCallTo_eq_and, Bool.and_eq_true, Option.any_eq_true]
  apply and_congr_left
  intro _
  constructor
  · rintro ⟨called, hcalled, hname⟩
    have heq : name = called := by simpa [NamePattern.admits] using hname
    rw [hcalled, heq]
  · intro hcalled
    exact ⟨name, hcalled, by simp [NamePattern.admits]⟩

theorem exists_calledName?_of_isCallTo {sig : Option Signature} (h : t.isCallTo sig scope = true) :
    ∃ name, t.calledName? = some name := by
  cases t with
  | call callee args => exact ⟨callee.name, rfl⟩
  | callOn receiver name args => exact ⟨name, rfl⟩
  | _ => exact absurd h Bool.false_ne_true

end Tree

/-- A walk from the start is in no function but those of the tree. -/
theorem Tree.exists_definition_of_mem_events {root : Tree} {e : Event} {name : String}
    (he : e ∈ root.events {}) (hcurrent : e.current = some name) :
    ∃ d v, root.node? d = some v ∧ v.definedName? = some name := by
  obtain ⟨c, -, -, hnone | hinner⟩ := exists_place_of_mem_events he
  · rw [hnone] at hcurrent
    cases hcurrent
  · rw [hcurrent, Option.or_none] at hinner
    obtain ⟨d, v, -, hv, hname⟩ := exists_definition_of_innermostName? hinner.symm
    exact ⟨d, v, hv, hname⟩

namespace Query

variable {root : Tree} {module? : Option ModuleName} {called caller : Option Signature}

section Wildcard

theorem occursIn_any_iff :
    occursIn ⟨some ⟨module?, .any⟩, caller⟩ root = true ↔
      ∃ e ∈ root.events {}, e.node.isCallTo (some ⟨module?, .any⟩) e.scope = true ∧
        (caller = none ∨ encloses e.current caller = true) := by
  have hself : ∀ current, encloses current (some ⟨module?, .any⟩) = false := by
    intro current
    rw [Bool.eq_false_iff, ne_eq, encloses_iff]
    rintro ⟨name, -, hname⟩
    cases hname
  rw [occursIn_iff_exists_event]
  simp only [hself, true_and]

theorem occursIn_exactly_iff {name : String} :
    occursIn ⟨some ⟨module?, .exactly name⟩, caller⟩ root = true ↔
      ∃ e ∈ root.events {}, (e.node.calledName? = some name ∧
        e.node.isCallTo (some ⟨module?, .any⟩) e.scope = true) ∧ e.current ≠ some name ∧
        (caller = none ∨ encloses e.current caller = true) := by
  have hself : ∀ current, encloses current (some ⟨module?, .exactly name⟩) = false ↔
      current ≠ some name := by
    intro current
    rw [Bool.eq_false_iff, ne_eq, encloses_iff]
    simp
  rw [occursIn_iff_exists_event]
  simp only [Tree.isCallTo_exactly_iff, hself]

/-- What is found under a name is found under the wildcard. If something is found under the wildcard,
it is found under the name in some call, or all such calls are made in the function of their own
name. -/
theorem occursIn_wildcard (root : Tree) (module? : Option ModuleName) (caller : Option Signature) :
    (∀ name : String, occursIn ⟨some ⟨module?, .exactly name⟩, caller⟩ root = true →
      occursIn ⟨some ⟨module?, .any⟩, caller⟩ root = true) ∧
    (occursIn ⟨some ⟨module?, .any⟩, caller⟩ root = true →
      (∃ (c : Place) (v : Tree) (name : String), root.node? c = some v ∧
        v.calledName? = some name ∧
        occursIn ⟨some ⟨module?, .exactly name⟩, caller⟩ root = true) ∨
      ∀ e ∈ root.events {}, e.node.isCallTo (some ⟨module?, .any⟩) e.scope = true →
        (caller = none ∨ encloses e.current caller = true) →
        ∃ name, e.node.calledName? = some name ∧ e.current = some name) := by
  constructor
  · intro name h
    obtain ⟨e, he, ⟨-, hcall⟩, -, hcaller⟩ := occursIn_exactly_iff.mp h
    exact occursIn_any_iff.mpr ⟨e, he, hcall, hcaller⟩
  · intro _
    -- The calls outside of the function of their own name are those found under their name.
    by_cases hother : ∃ e ∈ root.events {},
        e.node.isCallTo (some ⟨module?, .any⟩) e.scope = true ∧
        (caller = none ∨ encloses e.current caller = true) ∧ e.current ≠ e.node.calledName?
    · left
      obtain ⟨e, he, hcall, hcaller, hcurrent⟩ := hother
      obtain ⟨name, hname⟩ := Tree.exists_calledName?_of_isCallTo hcall
      obtain ⟨c, hnode, -, -⟩ := Tree.exists_place_of_mem_events he
      rw [hname] at hcurrent
      exact ⟨c, e.node, name, hnode, hname,
        occursIn_exactly_iff.mpr ⟨e, he, ⟨hname, hcall⟩, hcurrent, hcaller⟩⟩
    · right
      intro e he hcall hcaller
      obtain ⟨name, hname⟩ := Tree.exists_calledName?_of_isCallTo hcall
      refine ⟨name, hname, ?_⟩
      by_contra hcurrent
      exact hother ⟨e, he, hcall, hcaller, by rwa [hname]⟩

/-- A function that calls another one. -/
def loggingFunction : Tree := .define .public "count" [.var "n"] [.call (.bare "log") [.var "n"]]

/-- A function that calls nothing but itself. -/
def recursiveFunction : Tree :=
  .define .public "count" [.var "n"] [.call (.bare "count") [.var "n"]]

/-- The call of the function to itself is found under the wildcard and under no name. -/
theorem occursIn_wildcard_recursive :
    occursIn ⟨some ⟨none, .exactly "log"⟩, none⟩ loggingFunction = true ∧
      occursIn ⟨some ⟨none, .any⟩, none⟩ loggingFunction = true ∧
      occursIn ⟨some ⟨none, .any⟩, none⟩ recursiveFunction = true ∧
      (∀ name, occursIn ⟨some ⟨none, .exactly name⟩, none⟩ recursiveFunction = false) ∧
      ∀ e ∈ recursiveFunction.events {}, e.node.isCallTo (some ⟨none, .any⟩) e.scope = true →
        ∃ name, e.node.calledName? = some name ∧ e.current = some name := by
  have hlog : occursIn ⟨some ⟨none, .exactly "log"⟩, none⟩ loggingFunction = true := by decide
  have hany : occursIn ⟨some ⟨none, .any⟩, none⟩ recursiveFunction = true := by decide
  have hevents : recursiveFunction.events {} =
      [⟨.call (.bare "count") [.var "n"], some "count", {}⟩] := rfl
  have hnamed : ∀ name,
      occursIn ⟨some ⟨none, .exactly name⟩, none⟩ recursiveFunction = false := by
    intro name
    rw [Bool.eq_false_iff, ne_eq, occursIn_exactly_iff, hevents]
    rintro ⟨e, he, ⟨hname, -⟩, hcurrent, -⟩
    obtain rfl := List.mem_singleton.mp he
    exact hcurrent hname
  refine ⟨hlog, (occursIn_wildcard loggingFunction none none).1 "log" hlog, hany, hnamed, ?_⟩
  rcases (occursIn_wildcard recursiveFunction none none).2 hany with ⟨_, _, name, -, -, h⟩ | h
  · exact absurd h (by rw [hnamed name]; exact Bool.false_ne_true)
  · intro e he hcall
    exact h e he hcall (Or.inl rfl)

end Wildcard

section Caller

theorem occursIn_inside_iff {sig : Signature} :
    occursIn ⟨called, some sig⟩ root = true ↔
      ∃ e ∈ root.events {}, e.node.isCallTo called e.scope = true ∧
        encloses e.current called = false ∧
        ∃ name, e.current = some name ∧ sig.name = .exactly name := by
  rw [occursIn_iff_exists_event]
  simp only [encloses_iff, reduceCtorEq, false_or]

/-- A caller matters through its name, and there is none under the wildcard. What is found without a
caller is found with the name of a definition in the tree as the caller, or in no function. -/
theorem occursIn_by_caller (root : Tree) (called : Option Signature) :
    (∀ s s' : Signature, s.name = s'.name →
      occursIn ⟨called, some s⟩ root = occursIn ⟨called, some s'⟩ root) ∧
    (∀ s : Signature, s.name = .any → occursIn ⟨called, some s⟩ root = false) ∧
    (occursIn ⟨called, none⟩ root = true ↔
      (∃ (s : Signature) (d : Place) (v : Tree) (name : String), root.node? d = some v ∧
        v.definedName? = some name ∧ s.name = .exactly name ∧
        occursIn ⟨called, some s⟩ root = true) ∨
      ∃ e ∈ root.events {}, e.current = none ∧ e.node.isCallTo called e.scope = true) := by
  refine ⟨?_, ?_, ?_, ?_⟩
  · intro s s' hname
    rw [Bool.eq_iff_iff, occursIn_inside_iff, occursIn_inside_iff, hname]
  · intro s hany
    rw [Bool.eq_false_iff, ne_eq, occursIn_inside_iff]
    rintro ⟨e, -, -, -, name, -, hname⟩
    rw [hany] at hname
    cases hname
  · intro h
    obtain ⟨e, he, hcall, hself, -⟩ := occursIn_iff_exists_event.mp h
    cases hcurrent : e.current with
    | none => exact Or.inr ⟨e, he, hcurrent, hcall⟩
    | some name =>
      obtain ⟨d, v, hv, hname⟩ := Tree.exists_definition_of_mem_events he hcurrent
      have hinside : occursIn ⟨called, some ⟨none, .exactly name⟩⟩ root = true :=
        occursIn_inside_iff.mpr ⟨e, he, hcall, hself, name, hcurrent, rfl⟩
      exact Or.inl ⟨⟨none, .exactly name⟩, d, v, name, hv, hname, rfl, hinside⟩
  · rintro (⟨s, -, -, -, -, -, -, h⟩ | ⟨e, he, hcurrent, hcall⟩)
    · obtain ⟨e, he, hcall, hself, -⟩ := occursIn_inside_iff.mp h
      exact occursIn_iff_exists_event.mpr ⟨e, he, hcall, hself, Or.inl rfl⟩
    · refine occursIn_iff_exists_event.mpr ⟨e, he, hcall, ?_, Or.inl rfl⟩
      rw [hcurrent]
      rfl

/-- A function with another one inside, which makes a call. -/
def wrappingFunction : Tree :=
  .define .public "run" [] [
    .define .private "each" [] [.call (.ofModule ⟨"Repo", []⟩ "all") []],
    .call (.bare "each") []]

/-- The call is found inside the inner function, whatever the module of the caller. -/
theorem occursIn_by_caller_wrapping :
    let called : Option Signature := some (.qualified ⟨"Repo", []⟩ "all")
    let near : Signature := ⟨none, .exactly "each"⟩
    let far : Signature := ⟨some ⟨"Other", []⟩, .exactly "each"⟩
    near.name = far.name ∧ (wrappingFunction.node? [0]).bind Tree.definedName? = some "each" ∧
      occursIn ⟨called, some near⟩ wrappingFunction = true ∧
      occursIn ⟨called, some far⟩ wrappingFunction = true ∧
      occursIn ⟨called, some ⟨none, .any⟩⟩ wrappingFunction = false ∧
      occursIn ⟨called, none⟩ wrappingFunction = true := by
  intro called near far
  obtain ⟨hname, hwildcard, hnone⟩ := occursIn_by_caller wrappingFunction called
  have hnear : occursIn ⟨called, some near⟩ wrappingFunction = true := by decide
  refine ⟨rfl, rfl, hnear, (hname near far rfl).symm.trans hnear, hwildcard _ rfl, ?_⟩
  exact hnone.mpr (Or.inl ⟨near, [0], _, "each", rfl, rfl, rfl, hnear⟩)

end Caller

end Query

end CallAudit
