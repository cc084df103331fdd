import Mathlib.Data.List.Basic
import CallAudit.Proofs.Visit

/-!
# Places in a tree

A place is the way down from the root to a node: the index of a child, then the index of one of its
children, and so on. One place comes before another in the order of the source, which is the order
in which a walk enters the nodes, if it is less in the lexicographic order; the nodes inside a node
are those whose places have its place as a prefix.

## Main definitions

* `Place`, `Tree.node?`: places, and the node at a place.
* `Tree.places`: all places of a tree in the order of the source.

## Main statements

* `Tree.mem_places_iff`: the list holds the places at which there is a node.
* `Tree.places_eq`: the places of a tree from those of its children.
-/

namespace CallAudit

/-- The indices of children on the way from the root of a tree to a node. -/
abbrev Place := List Nat

namespace Tree

def node? (t : Tree) : Place → Option Tree
  | [] => some t
  | i :: p => t.children[i]?.bind fun u => u.node? p

@[simp] theorem node?_nil (t : Tree) : t.node? [] = some t := rfl

theorem node?_cons {t u : Tree} {i : Nat} (h : t.children[i]? = some u) (p : Place) :
    t.node? (i :: p) = u.node? p := by
  rw [node?, h, Option.bind_some]

theorem node?_cons_eq_some_iff {t v : Tree} {i : Nat} {p : Place} :
    t.node? (i :: p) = some v ↔ ∃ u, t.children[i]? = some u ∧ u.node? p = some v := by
  rw [node?, Option.bind_eq_some_iff]

mutual

/-- The places of a tree: the root, then the places in the children from left to right. -/
def places : Tree → List Place
  | .call _ args => [] :: placesFrom 0 args
  | .callOn receiver _ args => [] :: (places receiver).map (0 :: ·) ++ placesFrom 1 args
  | .define _ _ params body => [] :: placesFrom 0 params ++ placesFrom params.length body
  | .head _ _ params => [] :: placesFrom 0 params
  | .declare _ => [[]]
  | .var _ => [[]]
  | .literal _ => [[]]
  | .other _ children => [] :: placesFrom 0 children
termination_by structural t => t

/-- The places of trees that are children with indices from `i` on. -/
def placesFrom (i : Nat) : List Tree → List Place
  | [] => []
  | t :: ts => (places t).map (i :: ·) ++ placesFrom (i + 1) ts
termination_by structural ts => ts

end

theorem placesFrom_eq (ts : List Tree) (i : Nat) :
    placesFrom i ts = (ts.zipIdx i).flatMap fun x => x.1.places.map (x.2 :: ·) := by
  induction ts generalizing i with
  | nil => rfl
  | cons t ts ih => rw [placesFrom, ih, List.zipIdx_cons, List.flatMap_cons]

theorem places_eq (t : Tree) :
    t.places = [] :: t.children.zipIdx.flatMap fun x => x.1.places.map (x.2 :: ·) := by
  cases t with
  | define visibility name params body =>
    simp only [places, children, placesFrom_eq, List.zipIdx_append, List.flatMap_append,
      List.cons_append, Nat.zero_add]
  | callOn receiver name args =>
    simp only [places, children, placesFrom_eq, List.zipIdx_cons, List.flatMap_cons,
      List.cons_append, Nat.zero_add]
  | call callee args => simp only [places, children, placesFrom_eq]
  | head visibility name params => simp only [places, children, placesFrom_eq]
  | other form ts => simp only [places, children, placesFrom_eq]
  | declare declaration => rfl
  | var name => rfl
  | literal value => rfl

theorem cons_mem_places_iff {t : Tree} {i : Nat} {p : Place} :
    i :: p ∈ t.places ↔ ∃ u, t.children[i]? = some u ∧ p ∈ u.places := by
  rw [places_eq, List.mem_cons, List.mem_flatMap]
  constructor
  · rintro (h | ⟨⟨u, j⟩, hu, h⟩)
    · cases h
    · obtain ⟨r, hr, he⟩ := List.mem_map.mp h
      obtain ⟨rfl, rfl⟩ := List.cons.inj he
      exact ⟨u, List.mem_zipIdx_iff_getElem?.mp hu, hr⟩
  · rintro ⟨u, hu, hp⟩
    exact Or.inr ⟨(u, i), List.mem_zipIdx_iff_getElem?.mpr hu, List.mem_map.mpr ⟨p, hp, rfl⟩⟩

/-- The places of a tree are those at which there is a node. -/
theorem mem_places_iff {t : Tree} {p : Place} : p ∈ t.places ↔ (t.node? p).isSome = true := by
  induction p generalizing t with
  | nil =>
    rw [places_eq]
    simp
  | cons i p ih =>
    rw [cons_mem_places_iff, Option.isSome_iff_exists]
    simp only [node?_cons_eq_some_iff, ih, Option.isSome_iff_exists]
    constructor
    · rintro ⟨u, hu, v, hv⟩
      exact ⟨v, u, hu, hv⟩
    · rintro ⟨v, u, hu, hv⟩
      exact ⟨u, hu, v, hv⟩

end Tree

end CallAudit
