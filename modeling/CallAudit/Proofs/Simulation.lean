import CallAudit.Proofs.Events

/-!
# Two searches in step

Two searches for two things through two trees are compared by relations between their trees, the
functions that they are in, what they have in scope and what they have found. If each single thing
that a search does keeps the relations, then they hold behind the trees. A comparison of two searches
thereby comes down to the fields of `Simulation`, none of which is about a whole walk.

## Main definitions

* `Search.Related`: two states with related parts.
* `Simulation`: what has to be kept for two searches to stay in step.

## Main statements

* `Simulation.walk`, `Simulation.walkAll`: the relations hold behind trees.
* `Simulation.occursIn`: the relation between the answers.
-/

namespace CallAudit

variable {C : Option String → Option String → Prop} {S : Scope → Scope → Prop}
  {F : Bool → Bool → Prop} {T : Tree → Tree → Prop}

/-- Two states whose functions, scopes and flags are related. -/
structure Search.Related (C : Option String → Option String → Prop) (S : Scope → Scope → Prop)
    (F : Bool → Bool → Prop) (s s' : Search) : Prop where
  current : C s.current s'.current
  scope : S s.scope s'.scope
  found : F s.found s'.found

/-- The search for `q` and the search for `q'` stay in step on trees that `T` relates. -/
structure Simulation (q q' : Query) (T : Tree → Tree → Prop)
    (C : Option String → Option String → Prop) (S : Scope → Scope → Prop)
    (F : Bool → Bool → Prop) : Prop where
  children {t u : Tree} : T t u → List.Forall₂ T t.children u.children
  defines {t u : Tree} : T t u → t.definesFunction = u.definesFunction
  outside : C none none
  current {t u : Tree} {c c' : Option String} :
    T t u → C c c' → C (t.definedName?.or c) (u.definedName?.or c')
  declare {t u : Tree} {c c' : Option String} {s s' : Scope} :
    T t u → C c c' → S s s' → S (s.declare t c.isSome) (s'.declare u c'.isSome)
  endFunction {s s' : Scope} : S s s' → S s.endFunction s'.endFunction
  hits {t u : Tree} {c c' : Option String} {s s' : Scope} :
    T t u → C c c' → S s s' → F (q.hits t c s) (q'.hits u c' s')
  either {a a' b b' : Bool} : F a a' → F b b' → F (a || b) (a' || b')

theorem Query.found_leave_eq_hits (q : Query) (t : Tree) (s : Search) :
    (q.leave t s).found = (s.found || q.hits t s.current s.scope) := by
  rw [found_leave]
  cases hcall : t.isCall with
  | false => rw [hits_eq_false hcall, Bool.false_and]
  | true => rw [Bool.true_and]

namespace Simulation

variable {q q' : Query} {t u : Tree} {s s' : Search}

theorem enter (h : Simulation q q' T C S F) (ht : T t u) (hs : s.Related C S F s') :
    (Query.enter t s).Related C S F (Query.enter u s') :=
  ⟨h.current ht hs.current, h.declare ht hs.current hs.scope, hs.found⟩

theorem leave (h : Simulation q q' T C S F) (ht : T t u) (hs : s.Related C S F s') :
    (q.leave t s).Related C S F (q'.leave u s') := by
  have hfound : F (q.leave t s).found (q'.leave u s').found := by
    rw [Query.found_leave_eq_hits, Query.found_leave_eq_hits]
    exact h.either hs.found (h.hits ht hs.current hs.scope)
  cases hdefines : t.definesFunction with
  | false =>
    obtain ⟨hcurrent, hscope⟩ := Query.leave_of_not_defines q hdefines s
    obtain ⟨hcurrent', hscope'⟩ :=
      Query.leave_of_not_defines q' ((h.defines ht).symm.trans hdefines) s'
    refine ⟨?_, ?_, hfound⟩
    · rw [hcurrent, hcurrent']
      exact hs.current
    · rw [hscope, hscope']
      exact hs.scope
  | true =>
    obtain ⟨hcurrent, hscope⟩ := Query.leave_of_defines q hdefines s
    obtain ⟨hcurrent', hscope'⟩ :=
      Query.leave_of_defines q' ((h.defines ht).symm.trans hdefines) s'
    refine ⟨?_, ?_, hfound⟩
    · rw [hcurrent, hcurrent']
      exact h.outside
    · rw [hscope, hscope']
      exact h.endFunction hs.scope

theorem walk (h : Simulation q q' T C S F) (ht : T t u) (hs : s.Related C S F s') :
    (q.walk t s).Related C S F (q'.walk u s') :=
  Tree.visit_forall₂ (fun _ _ => h.children) (fun _ _ _ _ => h.enter) (fun _ _ _ _ => h.leave) ht hs

theorem walkAll (h : Simulation q q' T C S F) {ts us : List Tree} (hts : List.Forall₂ T ts us)
    (hs : s.Related C S F s') : (q.walkAll ts s).Related C S F (q'.walkAll us s') := by
  induction hts generalizing s s' with
  | nil => exact hs
  | cons ht _ ih => exact ih (h.walk ht hs)

theorem occursIn (h : Simulation q q' T C S F) (hscope : S {} {}) (hfound : F false false)
    (ht : T t u) : F (q.occursIn t) (q'.occursIn u) :=
  (h.walk ht ⟨h.outside, hscope, hfound⟩).found

end Simulation

end CallAudit
