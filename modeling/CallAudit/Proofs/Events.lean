import CallAudit.Proofs.Matching
import CallAudit.Proofs.Visit

/-!
# The calls that a walk leaves

A walk that searches for nothing can write down every call when it leaves it, together with the
function it is in and the scope at that moment. These records tell all about every other walk
through the same tree: where a walk is and what is in scope depends neither on what it searches for
nor on what it has found, and it has found something at the end if it had before or if one of the
records is searched for.

## Main definitions

* `Event`: a call with the function and the scope in which it is left.
* `Tree.events`: the records of a walk through a tree.
* `Query.walkAll`, `Query.finds`: a walk through trees one after the other, and whether it finds
  something in them.

## Main statements

* `Query.found_walk`, `Query.occursIn_iff_exists_event`: a walk finds what is among the records.
* `Query.walk_unaffected`: the found flag and the query leave the rest of a walk alone.
* `Query.finds_append`: what is found in trees in two parts.
* `Tree.mem_events_iff`: the records of a tree from those of its children.
-/

namespace CallAudit

/-- A call as it is left. -/
structure Event where
  node : Tree
  current : Option String
  scope : Scope

/-- Two states of walks that are in the same function with the same scope. -/
def Search.Agree (s s' : Search) : Prop := s.current = s'.current ∧ s.scope = s'.scope

namespace Query

/-- The query for nothing. -/
def absent : Query := ⟨none, none⟩

theorem enter_agree (t : Tree) {s s' : Search} (h : s.Agree s') :
    (enter t s).Agree (enter t s') := by
  obtain ⟨hc, hs⟩ := h
  constructor
  · simp only [enter, hc]
  · simp only [enter, hc, hs]

theorem found_leave (q : Query) (t : Tree) (s : Search) :
    (q.leave t s).found = (s.found || (t.isCall && q.hits t s.current s.scope)) := by
  simp only [leave, leaveDefinition]
  split <;> rfl

theorem leave_of_defines (q : Query) {t : Tree} (ht : t.definesFunction = true) (s : Search) :
    (q.leave t s).current = none ∧ (q.leave t s).scope = s.scope.endFunction := by
  simp [leave, leaveDefinition, ht]

theorem leave_of_not_defines (q : Query) {t : Tree} (ht : t.definesFunction = false) (s : Search) :
    (q.leave t s).Agree s := by
  simp [leave, leaveDefinition, ht, Search.Agree]

theorem leave_agree (p q : Query) (t : Tree) {s s' : Search} (h : s.Agree s') :
    (p.leave t s).Agree (q.leave t s') := by
  obtain ⟨hc, hs⟩ := h
  simp only [leave, leaveDefinition]
  split
  · exact ⟨rfl, by simp only [hs]⟩
  · exact ⟨hc, hs⟩

def walkAll (q : Query) (ts : List Tree) (s : Search) : Search := ts.foldl (fun s t => q.walk t s) s

@[simp] theorem walkAll_nil (q : Query) (s : Search) : q.walkAll [] s = s := rfl

@[simp] theorem walkAll_cons (q : Query) (t : Tree) (ts : List Tree) (s : Search) :
    q.walkAll (t :: ts) s = q.walkAll ts (q.walk t s) := rfl

theorem walkAll_append (q : Query) (ts us : List Tree) (s : Search) :
    q.walkAll (ts ++ us) s = q.walkAll us (q.walkAll ts s) :=
  List.foldl_append

theorem walk_eq_walkAll (q : Query) (t : Tree) (s : Search) :
    q.walk t s = q.leave t (q.walkAll t.children (enter t s)) :=
  walk_eq q t s

/-- Some other form is searched by walking through its children one after the other. -/
theorem occursIn_other (q : Query) (form : Option String) (ts : List Tree) :
    q.occursIn (.other form ts) = (q.walkAll ts {}).found := by
  have hcall : (Tree.other form ts).isCall = false := rfl
  have henter : enter (.other form ts) {} = {} := rfl
  rw [occursIn, walk_eq_walkAll, found_leave, hcall, henter, Bool.false_and, Bool.or_false]
  rfl

/-- Two walks that start in the same function with the same scope end so, whatever each of them
searches for and has found. -/
theorem walk_agree (p q : Query) (t : Tree) {s s' : Search} (h : s.Agree s') :
    (p.walk t s).Agree (q.walk t s') :=
  Tree.visit_rel (fun u _ _ h => enter_agree u h) (fun u _ _ h => leave_agree p q u h) t h

theorem walkAll_agree (p q : Query) (ts : List Tree) {s s' : Search} (h : s.Agree s') :
    (p.walkAll ts s).Agree (q.walkAll ts s') :=
  List.foldl_rel h fun t _ _ _ h => walk_agree p q t h

end Query

/-- A walk for nothing with the calls that it has left. -/
structure Recording where
  search : Search
  events : List Event := []

namespace Recording

def enter (t : Tree) (r : Recording) : Recording := { r with search := Query.enter t r.search }

/-- The recording after leaving a node: a call is written down as it is. -/
def leave (t : Tree) (r : Recording) : Recording where
  search := Query.absent.leave t r.search
  events := if t.isCall then r.events ++ [⟨t, r.search.current, r.search.scope⟩] else r.events

end Recording

namespace Tree

/-- The calls in a tree as they are left by the walk for nothing that starts at `s`. -/
def events (t : Tree) (s : Search) : List Event :=
  (t.visit Recording.enter Recording.leave ⟨{ s with found := false }, []⟩).events

theorem events_agree (t : Tree) {s s' : Search} (h : s.Agree s') : t.events s = t.events s' := by
  obtain ⟨hc, hs⟩ := h
  rw [events, events, hc, hs]

/-- A recording is the walk for nothing. -/
theorem search_recording (t : Tree) (r : Recording) :
    (t.visit Recording.enter Recording.leave r).search = Query.absent.walk t r.search := by
  refine visit_rel (R := fun (r : Recording) (s : Search) => r.search = s) ?_ ?_ t rfl
  · rintro u r _ rfl
    rfl
  · rintro u r _ rfl
    rfl

/-- A recording adds the calls of the tree behind those it has already, and its own flag does not
matter to them. -/
theorem events_recording (t : Tree) (r : Recording) :
    (t.visit Recording.enter Recording.leave r).events = r.events ++ t.events r.search := by
  let R : Recording → Recording → Prop := fun a b =>
    a.search.Agree b.search ∧ a.events = r.events ++ b.events
  have henter : ∀ u a b, R a b → R (Recording.enter u a) (Recording.enter u b) := by
    rintro u a b ⟨hs, he⟩
    exact ⟨Query.enter_agree u hs, he⟩
  have hleave : ∀ u a b, R a b → R (Recording.leave u a) (Recording.leave u b) := by
    rintro u a b ⟨hs, he⟩
    refine ⟨Query.leave_agree _ _ u hs, ?_⟩
    simp only [Recording.leave, he, hs.1, hs.2]
    split
    · rw [List.append_assoc]
    · rfl
  have hstart : R r ⟨{ r.search with found := false }, []⟩ :=
    ⟨⟨rfl, rfl⟩, (List.append_nil _).symm⟩
  exact (visit_rel henter hleave t hstart).2

theorem search_visitAll_recording (ts : List Tree) (r : Recording) :
    (visitAll Recording.enter Recording.leave ts r).search = Query.absent.walkAll ts r.search := by
  induction ts generalizing r with
  | nil => rfl
  | cons t ts ih => rw [visitAll, ih, search_recording, Query.walkAll_cons]

theorem mem_events_visitAll_recording {ts : List Tree} {r : Recording} {e : Event} :
    e ∈ (visitAll Recording.enter Recording.leave ts r).events ↔
      e ∈ r.events ∨ ∃ (i : Nat) (u : Tree), ts[i]? = some u ∧
        e ∈ u.events (Query.absent.walkAll (ts.take i) r.search) := by
  induction ts generalizing r with
  | nil => simp [visitAll]
  | cons t ts ih =>
    rw [visitAll, ih, events_recording, search_recording, List.mem_append, or_assoc]
    apply or_congr_right
    constructor
    · rintro (h | ⟨i, u, hu, h⟩)
      · exact ⟨0, t, rfl, h⟩
      · exact ⟨i + 1, u, hu, h⟩
    · rintro ⟨i, u, hu, h⟩
      cases i with
      | zero =>
        obtain rfl : t = u := Option.some.inj hu
        exact Or.inl h
      | succ i => exact Or.inr ⟨i, u, hu, h⟩

/-- The calls in a tree are those of its children, each walked through after the children before it,
and the tree itself if it is a call. -/
theorem mem_events_iff {t : Tree} {s : Search} {e : Event} :
    e ∈ t.events s ↔
      (∃ (i : Nat) (u : Tree), t.children[i]? = some u ∧
        e ∈ u.events (Query.absent.walkAll (t.children.take i) (Query.enter t s))) ∨
      t.isCall = true ∧
        e = ⟨t, (Query.absent.walkAll t.children (Query.enter t s)).current,
          (Query.absent.walkAll t.children (Query.enter t s)).scope⟩ := by
  -- The recording starts with its flag down, which changes neither places nor records.
  have hstart : ∀ ts, (Query.absent.walkAll ts (Query.enter t { s with found := false })).Agree
      (Query.absent.walkAll ts (Query.enter t s)) := by
    intro ts
    exact Query.walkAll_agree _ _ ts (Query.enter_agree t ⟨rfl, rfl⟩)
  have hchildren : e ∈ (visitAll Recording.enter Recording.leave t.children
        (Recording.enter t ⟨{ s with found := false }, []⟩)).events ↔
      ∃ (i : Nat) (u : Tree), t.children[i]? = some u ∧
        e ∈ u.events (Query.absent.walkAll (t.children.take i) (Query.enter t s)) := by
    rw [mem_events_visitAll_recording]
    simp only [Recording.enter, List.not_mem_nil, false_or]
    simp only [fun (u : Tree) i => u.events_agree (hstart (t.children.take i))]
  rw [events, visit_eq, ← visitAll_eq_foldl, ← hchildren, Recording.leave]
  cases hc : t.isCall with
  | false => simp
  | true =>
    have hsearch := search_visitAll_recording t.children
      (Recording.enter t ⟨{ s with found := false }, []⟩)
    obtain ⟨hcurrent, hscope⟩ := hstart t.children
    rw [if_pos rfl, List.mem_append, List.mem_singleton, hsearch, ← hcurrent, ← hscope]
    simp [Recording.enter]

end Tree

namespace Query

/-- A walk has found something if it had before, or if one of the calls in the tree is searched
for. -/
theorem found_walk (q : Query) (t : Tree) (s : Search) :
    (q.walk t s).found =
      (s.found || (t.events s).any fun e => q.hits e.node e.current e.scope) := by
  -- The walk and the recording go in step; the flag tells what is among the records so far.
  let R : Search → Recording → Prop := fun a r => a.Agree r.search ∧
    a.found = (s.found || r.events.any fun e => q.hits e.node e.current e.scope)
  have henter : ∀ u a r, R a r → R (enter u a) (Recording.enter u r) := by
    rintro u a r ⟨ha, hf⟩
    exact ⟨enter_agree u ha, hf⟩
  have hleave : ∀ u a r, R a r → R (q.leave u a) (Recording.leave u r) := by
    rintro u a r ⟨ha, hf⟩
    refine ⟨leave_agree _ _ u ha, ?_⟩
    rw [found_leave, hf, ha.1, ha.2]
    cases hc : u.isCall with
    | false => simp [Recording.leave, hc]
    | true => simp [Recording.leave, hc, Bool.or_assoc]
  have hstart : R s ⟨{ s with found := false }, []⟩ :=
    ⟨⟨rfl, rfl⟩, (Bool.or_false _).symm⟩
  exact (Tree.visit_rel henter hleave t hstart).2

/-- A search finds something exactly if one of the calls in the tree is searched for. -/
theorem occursIn_iff_exists_event {q : Query} {root : Tree} :
    q.occursIn root = true ↔ ∃ e ∈ root.events {},
      e.node.isCallTo q.called e.scope = true ∧ encloses e.current q.called = false ∧
        (q.caller = none ∨ encloses e.current q.caller = true) := by
  rw [occursIn, found_walk, Bool.false_or, List.any_eq_true]
  simp only [hits_iff]

/-- Whether a walk through trees finds something in them, whatever it has found before. -/
def finds (q : Query) (ts : List Tree) (s : Search) : Bool :=
  (q.walkAll ts { s with found := false }).found

theorem finds_agree (q : Query) (ts : List Tree) {s s' : Search} (h : s.Agree s') :
    q.finds ts s = q.finds ts s' := by
  obtain ⟨hc, hs⟩ := h
  rw [finds, finds, hc, hs]

theorem found_walkAll_eq (q : Query) (ts : List Tree) (s : Search) :
    (q.walkAll ts s).found = (s.found || q.finds ts s) := by
  induction ts generalizing s with
  | nil => simp [finds]
  | cons t ts ih =>
    have hevents : t.events { s with found := false } = t.events s := t.events_agree ⟨rfl, rfl⟩
    have hfirst : (q.walk t s).found = (s.found || (q.walk t { s with found := false }).found) := by
      rw [found_walk, found_walk, hevents, Bool.false_or]
    -- The rest is walked through in the same function with the same scope, flag up or down.
    have hrest : q.finds ts (q.walk t s) = q.finds ts (q.walk t { s with found := false }) :=
      finds_agree q ts (walk_agree q q t ⟨rfl, rfl⟩)
    have hdown : q.finds (t :: ts) s =
        ((q.walk t { s with found := false }).found ||
          q.finds ts (q.walk t { s with found := false })) :=
      ih _
    rw [walkAll_cons, ih, hfirst, hrest, hdown, Bool.or_assoc]

theorem finds_append (q : Query) (ts us : List Tree) (s : Search) :
    q.finds (ts ++ us) s = (q.finds ts s || q.finds us (q.walkAll ts s)) := by
  have hbefore : q.finds us (q.walkAll ts { s with found := false }) =
      q.finds us (q.walkAll ts s) :=
    finds_agree q us (walkAll_agree q q ts ⟨rfl, rfl⟩)
  rw [finds, walkAll_append, found_walkAll_eq, hbefore]
  rfl

theorem found_walkAll (q : Query) (ts : List Tree) {s : Search} (h : s.found = true) :
    (q.walkAll ts s).found = true := by
  rw [found_walkAll_eq, h, Bool.true_or]

/-- A walk finds something exactly if it had before or if one of the calls that the walk for nothing
leaves is searched for; the function it is in and the scope do not depend on what it searches for
nor on what it has found; and what it has found it keeps over all trees that follow. -/
theorem walk_unaffected (q : Query) (t : Tree) (s : Search) :
    ((q.walk t s).found = true ↔ s.found = true ∨ ∃ e ∈ t.events s,
      e.node.isCallTo q.called e.scope = true ∧ encloses e.current q.called = false ∧
        (q.caller = none ∨ encloses e.current q.caller = true)) ∧
    (∀ (p : Query) (found : Bool),
      (p.walk t { s with found := found }).current = (q.walk t s).current ∧
      (p.walk t { s with found := found }).scope = (q.walk t s).scope) ∧
    ∀ ts : List Tree, s.found = true → (q.walkAll ts s).found = true := by
  refine ⟨?_, ?_, ?_⟩
  · rw [found_walk, Bool.or_eq_true, List.any_eq_true]
    simp only [hits_iff]
  · intro p found
    exact walk_agree p q t ⟨rfl, rfl⟩
  · intro ts h
    exact found_walkAll q ts h

end Query

end CallAudit
