import CallAudit.Proofs.Events
import CallAudit.Proofs.History
import CallAudit.Proofs.Matching

/-!
# The plain search

A search by the book. It keeps its two tables as lists of entries, in which a later entry for a key
replaces an earlier one. Before the children of a node, a declaration goes into the table of its
place, and a definition becomes the function that the search is in. After the children of a node,
whatever it is, the inner table is written over the outer one, and the node is matched against this
one table; behind a definition the search is in no function and the inner table is empty. But once
something was found, nothing changes after the children any more, so that definitions are not left
either.

The search proper does less work. It looks at calls only, asks the two tables one after the other,
and leaves definitions as ever. Both give the same answer.

The two walks are in the same state until something is found, and apart in scope and function from
then on. What relates them is therefore equality up to the first find and the flag alone after it.

## Main definitions

* `PlainSearch`, `Query.plainWalk`: the plain search.
* `PlainSearch.search`: the state of the search proper that a state of the plain one stands for.

## Main statements

* `PlainSearch.search_enter`, `PlainSearch.search_leave`: the steps of the two searches.
* `Query.plainWalk_tracks`: the two walks.
* `Query.plainOccursIn_eq_occursIn`: the two searches agree.
-/

namespace CallAudit

/-- The state of a plain search. -/
structure PlainSearch where
  /-- The name of the function that the search is in. -/
  current : Option String := none
  /-- What was declared outside of functions. -/
  outer : List (ModuleName × Binding) := []
  /-- What was declared in the function that the search is in. -/
  inner : List (ModuleName × Binding) := []
  found : Bool := false
  deriving DecidableEq

namespace PlainSearch

/-- The state before the children of a node. -/
def enter (t : Tree) (s : PlainSearch) : PlainSearch :=
  match t with
  | .declare d =>
    if s.current = none then { s with outer := s.outer ++ d.bindings }
    else { s with inner := s.inner ++ d.bindings }
  | .define _ name _ _ => { s with current := some name }
  | _ => s

/-- The scope that has one table alone: the outer table with the inner one written over it. -/
def merged (s : PlainSearch) : Scope := { outer := .ofEntries (s.outer ++ s.inner) }

/-- Whether there is a signature, and the function that the search is in has its name. -/
def isInside (s : PlainSearch) (sig : Option Signature) : Bool :=
  sig.any fun sig => s.current.any fun name => sig.name == .exactly name

/-- Whether a node is searched for. -/
def hits (q : Query) (t : Tree) (s : PlainSearch) : Bool :=
  let callOk := t.isCallTo q.called s.merged && !s.isInside q.called
  let callerOk := q.caller == none || s.isInside q.caller
  callOk && callerOk

/-- The state behind a definition. -/
def close (t : Tree) (s : PlainSearch) : PlainSearch :=
  match t with
  | .define _ _ _ _ => { s with current := none, inner := [] }
  | _ => s

/-- The state after the children of a node. -/
def leave (q : Query) (t : Tree) (s : PlainSearch) : PlainSearch :=
  if s.found then s else close t { s with found := s.hits q t }

end PlainSearch

namespace Query

/-- A plain walk: before the children of the root, through one child after the other, and after
them. -/
def plainWalk (q : Query) (t : Tree) (s : PlainSearch) : PlainSearch :=
  (t.children.attach.foldl (fun s u => q.plainWalk u.val s) (s.enter t)).leave q t
termination_by sizeOf t
decreasing_by exact Tree.sizeOf_lt_of_mem_children u.property

def plainOccursIn (q : Query) (t : Tree) : Bool := (q.plainWalk t {}).found

theorem plainWalk_eq (q : Query) (t : Tree) (s : PlainSearch) :
    q.plainWalk t s = (t.children.foldl (fun s u => q.plainWalk u s) (s.enter t)).leave q t := by
  rw [plainWalk, List.foldl_attach (f := fun s u => q.plainWalk u s)]

end Query

namespace PlainSearch

/-- The state of the search proper with the same tables. -/
def search (s : PlainSearch) : Search where
  current := s.current
  scope := ⟨Table.insertAll {} s.outer, Table.insertAll {} s.inner⟩
  found := s.found

theorem search_enter (t : Tree) (s : PlainSearch) :
    (s.enter t).search = Query.enter t s.search := by
  obtain ⟨current, outer, inner, found⟩ := s
  cases t with
  | declare d =>
    have hentries : (Tree.declare d).entries = d.bindings := d.entries_eq_bindings
    cases current <;>
      simp [enter, search, Query.enter, Tree.definedName?, Scope.declare, hentries,
        Table.insertAll_append]
  | _ => cases current <;> rfl

theorem find?_merged (s : PlainSearch) (key : ModuleName) :
    s.merged.find? key = s.search.scope.find? key := by
  have hempty : ({} : Table).find? key = none := rfl
  simp only [merged, search, Scope.find?, hempty, Option.none_or, Table.find?_ofEntries,
    Table.find?_insertAll, lastFor?_append, Option.or_none]

theorem isInside_eq_encloses (s : PlainSearch) (sig : Option Signature) :
    s.isInside sig = encloses s.search.current sig := by
  cases sig with
  | none => cases h : s.current <;> simp [isInside, encloses, search, h]
  | some sig =>
    rw [Bool.eq_iff_iff, encloses_iff]
    simp [isInside, search, Option.any_eq_true]

/-- The merged table answers as the two tables do, and only calls are ever searched for. -/
theorem hits_eq (q : Query) (t : Tree) (s : PlainSearch) :
    s.hits q t = (t.isCall && q.hits t s.search.current s.search.scope) := by
  have hsame : s.hits q t = q.hits t s.search.current s.search.scope := by
    rw [hits, Query.hits, isInside_eq_encloses, isInside_eq_encloses,
      Tree.isCallTo_congr s.find?_merged]
    cases q.caller <;> rfl
  rw [hsame]
  cases hcall : t.isCall with
  | true => rw [Bool.true_and]
  | false => rw [Query.hits_eq_false hcall, Bool.false_and]

theorem search_close (t : Tree) (s : PlainSearch) :
    (s.close t).search = Query.leaveDefinition t s.search := by
  cases t <;> rfl

/-- Up to the first find, both searches do the same after the children of a node. -/
theorem search_leave (q : Query) (t : Tree) {s : PlainSearch} (h : s.found = false) :
    (s.leave q t).search = q.leave t s.search := by
  have hfound : s.search.found = false := h
  rw [leave, if_neg (by simp [h]), search_close, hits_eq, Query.leave, hfound, Bool.false_or]
  rfl

end PlainSearch

namespace Query

/-- Both searches have found something, or they are in the same state. -/
def Tracks (p : PlainSearch) (s : Search) : Prop :=
  p.found = s.found ∧ (p.found = false → p.search = s)

theorem enter_tracks (t : Tree) {p : PlainSearch} {s : Search} (h : Tracks p s) :
    Tracks (p.enter t) (enter t s) := by
  obtain ⟨hfound, hsame⟩ := h
  have hkept : (p.enter t).found = p.found := congrArg Search.found (p.search_enter t)
  refine ⟨hkept.trans hfound, fun hnone => ?_⟩
  rw [p.search_enter, hsame (hkept.symm.trans hnone)]

theorem leave_tracks (q : Query) (t : Tree) {p : PlainSearch} {s : Search} (h : Tracks p s) :
    Tracks (p.leave q t) (q.leave t s) := by
  obtain ⟨hfound, hsame⟩ := h
  cases hp : p.found with
  | false =>
    obtain rfl := hsame hp
    have hleave := p.search_leave q t hp
    exact ⟨congrArg Search.found hleave, fun _ => hleave⟩
  | true =>
    -- The plain state stays as it is, and the other one keeps its flag.
    have hplain : p.leave q t = p := if_pos hp
    have hleave : (q.leave t s).found = true := by rw [found_leave, ← hfound, hp, Bool.true_or]
    rw [hplain]
    exact ⟨hp.trans hleave.symm, fun hnone => absurd (hp.symm.trans hnone) (by decide)⟩

theorem plainWalk_tracks (q : Query) (t : Tree) {p : PlainSearch} {s : Search} (h : Tracks p s) :
    Tracks (q.plainWalk t p) (q.walk t s) := by
  induction t using Tree.children_induction generalizing p s with
  | node t ih =>
    rw [plainWalk_eq, walk_eq]
    apply leave_tracks
    exact List.foldl_rel (enter_tracks t h) fun u hu _ _ hchild => ih u hu hchild

/-- The search finds a call in a tree exactly if the plain search does. -/
theorem plainOccursIn_eq_occursIn (q : Query) (root : Tree) :
    q.plainOccursIn root = q.occursIn root := by
  have hstart : Tracks {} {} := ⟨rfl, fun _ => rfl⟩
  exact (q.plainWalk_tracks root hstart).1

-- The plain search stays in the function in which it has found the call.
example :
    let q : Query := ⟨some (.unqualified "f"), none⟩
    let root := Tree.define .public "run" []
      [.declare (.aliasing ⟨"A", ["B"]⟩ none []), .call (.bare "f") []]
    q.plainWalk root {} = ⟨some "run", [], [(⟨"B", []⟩, ⟨⟨"A", ["B"]⟩, .unrestricted⟩)], true⟩ ∧
      q.walk root {} = ⟨none, {}, true⟩ := by
  cbv

-- Behind a function the search is not in it any more.
example :
    plainOccursIn ⟨some (.unqualified "helper"), some (.unqualified "run")⟩
      (.other none [.define .public "run" [] [], .call (.bare "helper") []]) = false := by
  cbv

end Query

end CallAudit
