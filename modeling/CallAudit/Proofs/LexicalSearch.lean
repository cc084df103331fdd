import CallAudit.Proofs.Events
import CallAudit.Proofs.LexicalScope

/-!
# The lexical reading of a search

Where no definition stands inside another one, what a search finds can be told from places in the
source alone: it is in the function whose definition the place lies in, and has in scope what the
lexical scope of the place holds.

A walk through such a tree changes nothing but the table of the place where it is: it adds what the
tree declares outside of its definitions. That holds for each child of a node, so that the state in
which a child is walked through is known, and with it, by induction on the tree, the state at every
call.

## Main statements

* `Query.walk_of_fits`: what a walk through a tree changes.
* `Tree.mem_events_iff_place`: the calls that a walk leaves, by their places.
* `Query.occursIn_iff_exists_place`: a search finds what is called somewhere in the lexical reading.
-/

namespace CallAudit

namespace Scope

/-- The scope with more entries in the table of the function or of the module. -/
def enterAll (s : Scope) (entries : List (ModuleName × Binding)) (inFunction : Bool) : Scope :=
  if inFunction then { s with inner := s.inner.insertAll entries }
  else { s with outer := s.outer.insertAll entries }

theorem declare_eq_enterAll (s : Scope) (t : Tree) (inFunction : Bool) :
    s.declare t inFunction = s.enterAll t.entries inFunction := rfl

@[simp] theorem enterAll_nil (s : Scope) (inFunction : Bool) : s.enterAll [] inFunction = s := by
  cases inFunction <;> rfl

theorem enterAll_append (s : Scope) (as bs : List (ModuleName × Binding)) (inFunction : Bool) :
    s.enterAll (as ++ bs) inFunction = (s.enterAll as inFunction).enterAll bs inFunction := by
  cases inFunction with
  | false => simp only [enterAll, Bool.false_eq_true, if_false, Table.insertAll_append]
  | true => simp only [enterAll, if_true, Table.insertAll_append]

end Scope

namespace Search

/-- The state with more entries in scope at the place where the walk is. -/
def declaring (s : Search) (entries : List (ModuleName × Binding)) : Search :=
  { s with scope := s.scope.enterAll entries s.current.isSome }

theorem declaring_append (s : Search) (as bs : List (ModuleName × Binding)) :
    s.declaring (as ++ bs) = (s.declaring as).declaring bs := by
  rw [declaring, Scope.enterAll_append]
  rfl

/-- A state in which a tree may be walked through: the definitions of the tree are apart, there are
none of them if the walk is in a function already, and nothing of a function is in scope if it is
not in one. -/
structure Fits (s : Search) (t : Tree) : Prop where
  apart : t.DefinitionsApart
  inside : s.current.isSome = true → ∀ p, t.definesAt p = false
  outside : s.current = none → s.scope.inner = {}

variable {s : Search} {t u : Tree} {i : Nat}

theorem Fits.declaring (h : s.Fits t) (entries : List (ModuleName × Binding)) :
    (s.declaring entries).Fits t := by
  refine ⟨h.apart, h.inside, ?_⟩
  intro hc
  have hcurrent : s.current = none := hc
  change (s.scope.enterAll entries s.current.isSome).inner = {}
  rw [hcurrent]
  exact h.outside hcurrent

theorem Fits.current_eq_none (h : s.Fits t) (ht : t.definesFunction = true) : s.current = none := by
  by_contra hc
  have hroot : t.definesAt [] = true := ht
  rw [h.inside (Option.isSome_iff_ne_none.mpr hc)] at hroot
  exact Bool.false_ne_true hroot

end Search

namespace Query

variable {s : Search} {t u : Tree} {i : Nat}

theorem enter_of_not_defines (ht : t.definesFunction = false) (s : Search) :
    enter t s = s.declaring t.entries := by
  have hname : t.definedName? = none := by simpa [Tree.definesFunction] using ht
  rw [enter, hname, Scope.declare_eq_enterAll]
  rfl

theorem enter_of_defines (ht : t.definesFunction = true) (s : Search) :
    enter t s = { s with current := t.definedName? } := by
  obtain ⟨name, hname⟩ := Option.isSome_iff_exists.mp ht
  rw [enter, hname, Scope.declare_eq_enterAll, Tree.entries_eq_nil ht, Scope.enterAll_nil]
  rfl

theorem enter_fits (h : s.Fits t) (hu : t.children[i]? = some u) : (enter t s).Fits u := by
  cases ht : t.definesFunction with
  | false =>
    rw [enter_of_not_defines ht]
    apply Search.Fits.declaring
    refine ⟨h.apart.child hu, ?_, h.outside⟩
    intro hc p
    rw [← Tree.definesAt_cons hu]
    exact h.inside hc (i :: p)
  | true =>
    rw [enter_of_defines ht]
    refine ⟨h.apart.child hu, fun _ => h.apart.definesAt_child ht hu, ?_⟩
    intro hc
    have hname : t.definedName? = none := hc
    rw [Tree.definesFunction, hname] at ht
    exact absurd ht (by decide)

theorem absent_leave (t : Tree) (s : Search) : absent.leave t s = leaveDefinition t s := by
  have hnone : absent.hits t s.current s.scope = false := by
    cases t <;> rfl
  rw [leave, hnone, Bool.and_false, Bool.or_false]

theorem walkAll_of_fits {ts : List Tree}
    (hwalk : ∀ u ∈ ts, ∀ s : Search, s.Fits u → absent.walk u s = s.declaring u.ownEntries)
    (h : ∀ u ∈ ts, s.Fits u) : absent.walkAll ts s = s.declaring (ts.flatMap Tree.ownEntries) := by
  induction ts generalizing s with
  | nil => simp [Search.declaring]
  | cons t ts ih =>
    have hrest : ∀ u ∈ ts, (s.declaring t.ownEntries).Fits u := by
      intro u hu
      exact (h u (List.mem_cons_of_mem t hu)).declaring _
    rw [walkAll_cons, hwalk t List.mem_cons_self s (h t List.mem_cons_self),
      ih (fun u hu => hwalk u (List.mem_cons_of_mem t hu)) hrest, List.flatMap_cons,
      Search.declaring_append]

/-- A walk for nothing adds to the scope, at the place where it is, what the tree declares outside
of its definitions, and changes nothing else. -/
theorem walk_of_fits (t : Tree) (h : s.Fits t) : absent.walk t s = s.declaring t.ownEntries := by
  induction t using Tree.children_induction generalizing s with
  | node t ih =>
    have hchildren : ∀ u ∈ t.children, (enter t s).Fits u := by
      intro u hu
      obtain ⟨i, hi⟩ := List.getElem?_of_mem hu
      exact enter_fits h hi
    rw [walk_eq_walkAll, absent_leave,
      walkAll_of_fits (fun u hu s hs => ih u hu hs) hchildren]
    cases ht : t.definesFunction with
    | false =>
      rw [enter_of_not_defines ht, ← Search.declaring_append, Tree.ownEntries_eq ht,
        leaveDefinition, ht]
      rfl
    | true =>
      -- All that was declared inside went to the table that is emptied here, as it was before.
      have hcurrent := h.current_eq_none ht
      have hinner := h.outside hcurrent
      obtain ⟨name, hname⟩ := Option.isSome_iff_exists.mp ht
      obtain ⟨current, ⟨outer, inner⟩, found⟩ := s
      subst hcurrent hinner
      rw [enter_of_defines ht, hname, Tree.ownEntries_of_defines ht, leaveDefinition, ht]
      rfl

/-- The state in which a child is walked through. -/
theorem walkAll_take_of_fits (h : s.Fits t) (i : Nat) :
    absent.walkAll (t.children.take i) (enter t s) =
      (enter t s).declaring ((t.children.take i).flatMap Tree.ownEntries) := by
  apply walkAll_of_fits
  · intro u _ s hs
    exact walk_of_fits u hs
  · intro u hu
    obtain ⟨j, hj⟩ := List.getElem?_of_mem (List.mem_of_mem_take hu)
    exact enter_fits h hj

end Query

namespace Tree

variable {s : Search} {t u : Tree} {i : Nat}

/-- The scope at a place of a tree that is walked through from the state `s`. -/
def scopeFrom (t : Tree) (s : Search) (c : Place) : Scope :=
  let around := s.scope.enterAll (t.entriesSeen c none) s.current.isSome
  match t.definitionAround? c with
  | none => around
  | some d => around.enterAll (t.entriesSeen c (some d)) true

theorem scopeFrom_of_none {c : Place} (h : t.definitionAround? c = none) (s : Search) :
    t.scopeFrom s c = s.scope.enterAll (t.entriesSeen c none) s.current.isSome := by
  rw [scopeFrom, h]

theorem scopeFrom_of_some {c d : Place} (h : t.definitionAround? c = some d) (s : Search) :
    t.scopeFrom s c =
      (s.scope.enterAll (t.entriesSeen c none) s.current.isSome).enterAll
        (t.entriesSeen c (some d)) true := by
  rw [scopeFrom, h]

theorem scopeFrom_start (t : Tree) (c : Place) : t.scopeFrom {} c = t.scopeAt c := by
  rw [scopeFrom, scopeAt]
  cases t.definitionAround? c with
  | none => rfl
  | some d => rfl

theorem nameAround?_child (h : s.Fits t) (hu : t.children[i]? = some u) (c : Place) :
    (u.nameAround? c).or (Query.absent.walkAll (t.children.take i) (Query.enter t s)).current =
      (t.nameAround? (i :: c)).or s.current := by
  rw [Query.walkAll_take_of_fits h]
  change (u.nameAround? c).or (Query.enter t s).current = _
  cases ht : t.definesFunction with
  | false =>
    rw [Query.enter_of_not_defines ht, nameAround?_cons ht hu]
    rfl
  | true =>
    rw [Query.enter_of_defines ht, nameAround?_of_defines ht, h.current_eq_none ht, Option.or_none,
      nameAround?_eq_none (h.apart.definesAt_child ht hu), Option.none_or]

theorem scopeFrom_child (h : s.Fits t) (hu : t.children[i]? = some u) (c : Place) :
    u.scopeFrom (Query.absent.walkAll (t.children.take i) (Query.enter t s)) c =
      t.scopeFrom s (i :: c) := by
  rw [Query.walkAll_take_of_fits h]
  cases ht : t.definesFunction with
  | false =>
    rw [Query.enter_of_not_defines ht, ← Search.declaring_append]
    -- The table of the place where the walk is: root, children before this one, inside this one.
    have haround := definitionAround?_cons ht hu c
    have hsame : ((s.declaring (t.entries ++ (t.children.take i).flatMap ownEntries)).scope.enterAll
        (u.entriesSeen c none) s.current.isSome) =
          s.scope.enterAll (t.entriesSeen (i :: c) none) s.current.isSome := by
      rw [entriesSeen_cons_none ht hu, Scope.enterAll_append _ (_ ++ _)]
      rfl
    cases hd : u.definitionAround? c with
    | none =>
      rw [hd] at haround
      rw [scopeFrom_of_none hd, scopeFrom_of_none haround]
      exact hsame
    | some d =>
      rw [hd] at haround
      rw [scopeFrom_of_some hd, scopeFrom_of_some haround, entriesSeen_cons_some ht hu, ← hsame]
      rfl
  | true =>
    -- Nothing outside of the definition is declared in it, and no other definition is inside.
    have hnone := definitionAround?_eq_none (h.apart.definesAt_child ht hu) c
    obtain ⟨name, hname⟩ := Option.isSome_iff_exists.mp ht
    rw [scopeFrom_of_none hnone, scopeFrom_of_some (definitionAround?_of_defines ht _),
      entriesSeen_none_of_defines ht, Scope.enterAll_nil, Query.enter_of_defines ht, hname,
      entriesSeen_cons_of_defines h.apart ht hu, Scope.enterAll_append]
    rfl

/-- A call is left in the function and with the scope of its place. -/
theorem event_root (h : s.Fits t) (hc : t.isCall = true) :
    (⟨t, (Query.absent.walkAll t.children (Query.enter t s)).current,
      (Query.absent.walkAll t.children (Query.enter t s)).scope⟩ : Event) =
    ⟨t, (t.nameAround? []).or s.current, t.scopeFrom s []⟩ := by
  have ht : t.definesFunction = false := by
    cases t with
    | define visibility name params body => simp [isCall] at hc
    | _ => rfl
  have hall := Query.walkAll_take_of_fits h t.children.length
  rw [List.take_length] at hall
  rw [hall, Query.enter_of_not_defines ht, ← Search.declaring_append, ← ownEntries_eq ht,
    nameAround?_nil ht, scopeFrom_of_none (definitionAround?_nil ht), entriesSeen_root]
  rfl

/-- The calls that a walk leaves are the calls at the places of the tree, each in the function whose
definition it lies in and with its lexical scope. -/
theorem mem_events_iff_place (t : Tree) (h : s.Fits t) {e : Event} :
    e ∈ t.events s ↔ ∃ c v, t.node? c = some v ∧ v.isCall = true ∧
      e = ⟨v, (t.nameAround? c).or s.current, t.scopeFrom s c⟩ := by
  induction t using children_induction generalizing s with
  | node t ih =>
    rw [mem_events_iff]
    -- A place in the child `i`, walked through in its own state, is a place below `i` in the tree.
    have hchild : ∀ i u, t.children[i]? = some u →
        (e ∈ u.events (Query.absent.walkAll (t.children.take i) (Query.enter t s)) ↔
          ∃ c v, t.node? (i :: c) = some v ∧ v.isCall = true ∧
            e = ⟨v, (t.nameAround? (i :: c)).or s.current, t.scopeFrom s (i :: c)⟩) := by
      intro i u hu
      have hfits : (Query.absent.walkAll (t.children.take i) (Query.enter t s)).Fits u := by
        rw [Query.walkAll_take_of_fits h]
        exact (Query.enter_fits h hu).declaring _
      rw [ih u (List.mem_of_getElem? hu) hfits]
      simp only [nameAround?_child h hu, scopeFrom_child h hu, node?_cons hu]
    constructor
    · rintro (⟨i, u, hu, he⟩ | ⟨hc, rfl⟩)
      · obtain ⟨c, v, hv⟩ := (hchild i u hu).mp he
        exact ⟨i :: c, v, hv⟩
      · exact ⟨[], t, rfl, hc, event_root h hc⟩
    · rintro ⟨c, v, hv, hc, rfl⟩
      cases c with
      | nil =>
        obtain rfl : t = v := Option.some.inj hv
        exact Or.inr ⟨hc, (event_root h hc).symm⟩
      | cons i c =>
        obtain ⟨u, hu, _⟩ := node?_cons_eq_some_iff.mp hv
        exact Or.inl ⟨i, u, hu, (hchild i u hu).mpr ⟨c, v, hv, hc, rfl⟩⟩

end Tree

namespace Query

/-- In a tree whose definitions are apart, a search finds something exactly if somewhere in the tree
there is a call that matches in its lexical scope, does not lie in a definition of the function that
is called, and lies in a definition of the calling function if one is given. -/
theorem occursIn_iff_exists_place (q : Query) (root : Tree) (h : root.DefinitionsApart) :
    q.occursIn root = true ↔ ∃ (c : Place) (t : Tree), root.node? c = some t ∧ t.isCall = true ∧
      t.isCallTo q.called (root.scopeAt c) = true ∧
      encloses (root.nameAround? c) q.called = false ∧
      (q.caller = none ∨ encloses (root.nameAround? c) q.caller = true) := by
  have hfits : ({} : Search).Fits root := ⟨h, fun hc => absurd hc (by decide), fun _ => rfl⟩
  rw [occursIn, found_walk, Bool.false_or, List.any_eq_true]
  simp only [Tree.mem_events_iff_place root hfits, hits_iff]
  constructor
  · rintro ⟨_, ⟨c, t, ht, hc, rfl⟩, hmatch, hcalled, hcaller⟩
    rw [Tree.scopeFrom_start] at hmatch
    rw [Option.or_none] at hcalled hcaller
    exact ⟨c, t, ht, hc, hmatch, hcalled, hcaller⟩
  · rintro ⟨c, t, ht, hc, hmatch, hcalled, hcaller⟩
    refine ⟨_, ⟨c, t, ht, hc, rfl⟩, ?_⟩
    rw [Tree.scopeFrom_start, Option.or_none]
    exact ⟨hmatch, hcalled, hcaller⟩

/-- A module with an alias of `Repo`, a function that has two more before its call, and a function
that has none. -/
def shadowingModule : Tree :=
  .other (some "defmodule") [
    .declare (.aliasing ⟨"Outer", ["Repo"]⟩ none []),
    .define .public "run" [] [
      .declare (.aliasing ⟨"Early", ["Repo"]⟩ none []),
      .declare (.aliasing ⟨"Inner", ["Repo"]⟩ none []),
      .call (.ofModule ⟨"Repo", []⟩ "all") []],
    .define .public "other" [] [.call (.ofModule ⟨"Repo", []⟩ "all") []]]

/-- The call in the first function reaches the module of the last alias inside that function, and no
call reaches the module of the alias before it. -/
theorem occursIn_shadowingModule :
    shadowingModule.DefinitionsApart ∧
      (shadowingModule.scopeAt [1, 2]).find? ⟨"Repo", []⟩ =
        some ⟨⟨"Inner", ["Repo"]⟩, .unrestricted⟩ ∧
      occursIn ⟨some (.qualified ⟨"Inner", ["Repo"]⟩ "all"), some (.unqualified "run")⟩
        shadowingModule = true ∧
      occursIn ⟨some (.qualified ⟨"Early", ["Repo"]⟩ "all"), none⟩ shadowingModule = false := by
  have hapart : shadowingModule.DefinitionsApart := by decide
  refine ⟨hapart, by decide, (occursIn_iff_exists_place _ _ hapart).mpr ?_, ?_⟩
  · exact ⟨[1, 2], .call (.ofModule ⟨"Repo", []⟩ "all") [], rfl, rfl, by decide, by decide,
      Or.inr (by decide)⟩
  · have hnowhere : ∀ c ∈ shadowingModule.places, ∀ t ∈ shadowingModule.node? c,
        t.isCallTo (some (.qualified ⟨"Early", ["Repo"]⟩ "all")) (shadowingModule.scopeAt c) =
          false := by decide
    rw [Bool.eq_false_iff]
    intro hfound
    obtain ⟨c, t, ht, -, hmatch, -⟩ := (occursIn_iff_exists_place _ _ hapart).mp hfound
    have hplace : c ∈ shadowingModule.places := Tree.mem_places_iff.mpr (by rw [ht]; rfl)
    rw [hnowhere c hplace t ht] at hmatch
    cases hmatch

end Query

end CallAudit
