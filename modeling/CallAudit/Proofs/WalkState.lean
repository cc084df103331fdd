import CallAudit.Proofs.Events
import CallAudit.Proofs.LexicalScope

/-!
# The states of a walk

What entering and leaving nodes can do to the state of a walk, where definitions may stand inside
one another in any way. The state has room for one function and for the table of one function. A
definition takes both over when it is entered and empties both when it is left; nothing puts back
what was there before.

Some facts remain. Nothing of a function is in scope as long as the walk is in none. After a tree the
walk is in the function in which it was before, unless a definition stands in the tree, which may
leave it in none. And wherever it is, it is in the innermost function around the place or in none.

## Main definitions

* `Search.Reachable`: the states that entering and leaving nodes can lead to.
* `Search.AtTop`: the states between the trees at the top.
* `Tree.innermostName?`: the innermost function around a place.

## Main statements

* `Search.Reachable.inner_eq_empty`: no function, no table of a function.
* `Query.walk_of_defines`: the state after a definition.
* `Query.current_walk`, `Query.current_walkAll_eq`: the function that a walk is in afterwards.
* `Query.walkAll_atTop`: behind whole trees a walk is at the top.
* `Tree.exists_event`, `Tree.exists_place_of_mem_events`: every call and nothing else is left, in the
  innermost function around it or in none.
-/

namespace CallAudit

/-- The states in which a walk can be: from the start, nodes are entered and left. -/
inductive Search.Reachable (q : Query) : Search → Prop
  | start : Reachable q {}
  | enter (t : Tree) {s : Search} (h : Reachable q s) : Reachable q (Query.enter t s)
  | leave (t : Tree) {s : Search} (h : Reachable q s) : Reachable q (q.leave t s)

namespace Query

theorem current_enter (t : Tree) (s : Search) :
    (enter t s).current = t.definedName?.or s.current := rfl

theorem inner_enter (t : Tree) {s : Search} (h : s.current = none) :
    (enter t s).scope.inner = s.scope.inner := by
  simp [enter, Scope.declare, h]

end Query

namespace Search.Reachable

variable {q : Query} {s : Search}

/-- As long as a walk is in no function, nothing of a function is in scope. -/
theorem inner_eq_empty (h : s.Reachable q) (hc : s.current = none) : s.scope.inner = {} := by
  induction h with
  | start => rfl
  | @enter t s _ ih =>
    rw [Query.current_enter, Option.or_eq_none_iff] at hc
    rw [Query.inner_enter t hc.2]
    exact ih hc.2
  | @leave t s _ ih =>
    cases ht : t.definesFunction with
    | false =>
      obtain ⟨hcurrent, hscope⟩ := Query.leave_of_not_defines q ht s
      rw [hscope]
      exact ih (hcurrent.symm.trans hc)
    | true =>
      rw [(Query.leave_of_defines q ht s).2]
      rfl

theorem walk (h : s.Reachable q) (t : Tree) : (q.walk t s).Reachable q :=
  Tree.visit_invariant (fun u _ hs => .enter u hs) (fun u _ hs => .leave u hs) t h

theorem walkAll (h : s.Reachable q) (ts : List Tree) : (q.walkAll ts s).Reachable q :=
  List.foldlRecOn ts _ h fun _ hs t _ => hs.walk t

end Search.Reachable

/-- In no function and with nothing of a function in scope, as a walk is between the trees at the
top. -/
structure Search.AtTop (s : Search) : Prop where
  current : s.current = none
  inner : s.scope.inner = {}

namespace Query

variable {t : Tree}

/-- After a definition a walk is in no function, and nothing of a function is in scope. -/
theorem walk_of_defines (q : Query) (ht : t.definesFunction = true) (s : Search) :
    (q.walk t s).current = none ∧ (q.walk t s).scope.inner = {} := by
  rw [walk_eq_walkAll]
  obtain ⟨hcurrent, hscope⟩ := leave_of_defines q ht (q.walkAll t.children (enter t s))
  rw [hscope]
  exact ⟨hcurrent, rfl⟩

theorem current_walkAll {q : Query} {ts : List Tree}
    (hwalk : ∀ u ∈ ts, ∀ s : Search, (q.walk u s).current = s.current ∨
      (q.walk u s).current = none ∧ ∃ p, u.definesAt p = true) (s : Search) :
    (q.walkAll ts s).current = s.current ∨
      (q.walkAll ts s).current = none ∧ ∃ u ∈ ts, ∃ p, u.definesAt p = true := by
  induction ts generalizing s with
  | nil => exact Or.inl rfl
  | cons t ts ih =>
    rw [walkAll_cons]
    have hfirst := hwalk t List.mem_cons_self s
    rcases ih (fun u hu => hwalk u (List.mem_cons_of_mem t hu)) (q.walk t s) with
      hrest | ⟨hrest, u, hu, hp⟩
    · rcases hfirst with hfirst | ⟨hfirst, hp⟩
      · exact Or.inl (hrest.trans hfirst)
      · exact Or.inr ⟨hrest.trans hfirst, t, List.mem_cons_self, hp⟩
    · exact Or.inr ⟨hrest, u, List.mem_cons_of_mem t hu, hp⟩

/-- After a tree a walk is in the function that it was in before, or in none if there is a definition
in the tree. -/
theorem current_walk (q : Query) (t : Tree) (s : Search) :
    (q.walk t s).current = s.current ∨
      (q.walk t s).current = none ∧ ∃ p, t.definesAt p = true := by
  induction t using Tree.children_induction generalizing s with
  | node t ih =>
    cases ht : t.definesFunction with
    | true => exact Or.inr ⟨(walk_of_defines q ht s).1, [], ht⟩
    | false =>
      have hname : t.definedName? = none := by simpa [Tree.definesFunction] using ht
      have henter : (enter t s).current = s.current := by
        rw [current_enter, hname, Option.none_or]
      rw [walk_eq_walkAll, (leave_of_not_defines q ht _).1]
      rcases current_walkAll ih (enter t s) with hall | ⟨hall, u, hu, p, hp⟩
      · exact Or.inl (hall.trans henter)
      · obtain ⟨i, hi⟩ := List.getElem?_of_mem hu
        exact Or.inr ⟨hall, i :: p, by rw [Tree.definesAt_cons hi, hp]⟩

theorem current_walkAll_eq (q : Query) (ts : List Tree) (s : Search) :
    (q.walkAll ts s).current = none ∨ (q.walkAll ts s).current = s.current := by
  rcases current_walkAll (fun u _ s => current_walk q u s) s with h | ⟨h, -⟩
  · exact Or.inr h
  · exact Or.inl h

/-- However definitions stand inside one another in some trees, behind them a walk is at the top
again. -/
theorem walkAll_atTop (q : Query) (ts : List Tree) : (q.walkAll ts {}).AtTop := by
  have hcurrent : (q.walkAll ts {}).current = none := by
    rcases current_walkAll_eq q ts {} with h | h
    · exact h
    · exact h
  have hreachable := (Search.Reachable.start (q := q)).walkAll ts
  exact ⟨hcurrent, hreachable.inner_eq_empty hcurrent⟩

end Query

namespace Tree

variable {t u : Tree} {i : Nat}

/-- The name of the innermost definition that a place lies in. -/
def innermostName? (t : Tree) (c : Place) : Option String :=
  (c.inits.filterMap fun d => (t.node? d).bind definedName?).getLast?

theorem innermostName?_nil (t : Tree) : t.innermostName? [] = t.definedName? := by
  cases h : t.definedName? with
  | none => simp [innermostName?, h]
  | some name => simp [innermostName?, h]

theorem innermostName?_cons (hu : t.children[i]? = some u) (c : Place) :
    t.innermostName? (i :: c) = (u.innermostName? c).or t.definedName? := by
  have hinside : ((fun d => (t.node? d).bind definedName?) ∘ fun d => i :: d) =
      fun d => (u.node? d).bind definedName? := by
    funext d
    rw [Function.comp_apply, node?_cons hu]
  rw [innermostName?, List.inits_cons, ← List.singleton_append, List.filterMap_append,
    List.filterMap_map, hinside, List.getLast?_append]
  congr 1
  exact innermostName?_nil t

/-- The innermost function around a place is one of the definitions that the place lies in. -/
theorem exists_definition_of_innermostName? {c : Place} {name : String}
    (h : t.innermostName? c = some name) :
    ∃ d v, d <+: c ∧ t.node? d = some v ∧ v.definedName? = some name := by
  obtain ⟨d, hd, hname⟩ := List.mem_filterMap.mp (List.mem_of_getLast? h)
  obtain ⟨v, hv, hdefined⟩ := Option.bind_eq_some_iff.mp hname
  exact ⟨d, v, (List.mem_inits d c).mp hd, hv, hdefined⟩

/-- A walk that is, inside a child, in the innermost function there or in none is so inside the node:
the children before may have put the walk out of all functions around. -/
theorem current_inside (hu : t.children[i]? = some u) (c : Place) (s : Search)
    {current : Option String}
    (h : current = none ∨ current = (u.innermostName? c).or
      (Query.absent.walkAll (t.children.take i) (Query.enter t s)).current) :
    current = none ∨ current = (t.innermostName? (i :: c)).or s.current := by
  rcases h with hnone | hcurrent
  · exact Or.inl hnone
  · rw [innermostName?_cons hu, Option.or_assoc]
    rcases Query.current_walkAll_eq Query.absent (t.children.take i) (Query.enter t s) with
      hbefore | hbefore
    · rw [hbefore, Option.or_none] at hcurrent
      cases hinner : u.innermostName? c with
      | none => exact Or.inl (hcurrent.trans hinner)
      | some name => exact Or.inr (hcurrent.trans hinner)
    · exact Or.inr (by rw [hcurrent, hbefore, Query.current_enter])

/-- Every call in a tree is left, and then the walk is in the innermost function around the call or in
none. -/
theorem exists_event (t : Tree) (s : Search) {c : Place} {v : Tree} (hv : t.node? c = some v)
    (hc : v.isCall = true) :
    ∃ e ∈ t.events s, e.node = v ∧
      (e.current = none ∨ e.current = (t.innermostName? c).or s.current) := by
  induction c generalizing t s with
  | nil =>
    obtain rfl : t = v := Option.some.inj hv
    refine ⟨_, mem_events_iff.mpr (Or.inr ⟨hc, rfl⟩), rfl, ?_⟩
    rw [innermostName?_nil]
    exact Query.current_walkAll_eq Query.absent t.children (Query.enter t s)
  | cons i c ih =>
    obtain ⟨u, hu, hv'⟩ := node?_cons_eq_some_iff.mp hv
    obtain ⟨e, he, hnode, hcurrent⟩ :=
      ih u (Query.absent.walkAll (t.children.take i) (Query.enter t s)) hv'
    exact ⟨e, mem_events_iff.mpr (Or.inl ⟨i, u, hu, he⟩), hnode, current_inside hu c s hcurrent⟩

/-- Nothing but the calls in a tree is left, each of them in the innermost function around it or in
none. -/
theorem exists_place_of_mem_events {t : Tree} {s : Search} {e : Event} (he : e ∈ t.events s) :
    ∃ c, t.node? c = some e.node ∧ e.node.isCall = true ∧
      (e.current = none ∨ e.current = (t.innermostName? c).or s.current) := by
  induction t using children_induction generalizing s with
  | node t ih =>
    rcases mem_events_iff.mp he with ⟨i, u, hu, he⟩ | ⟨hc, rfl⟩
    · obtain ⟨c, hnode, hc, hcurrent⟩ := ih u (List.mem_of_getElem? hu) he
      exact ⟨i :: c, by rw [node?_cons hu, hnode], hc, current_inside hu c s hcurrent⟩
    · refine ⟨[], rfl, hc, ?_⟩
      rw [innermostName?_nil]
      exact Query.current_walkAll_eq Query.absent t.children (Query.enter t s)

end Tree

end CallAudit
