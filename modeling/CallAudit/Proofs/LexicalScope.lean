import Mathlib.Data.List.Infix
import CallAudit.Proofs.Place
import CallAudit.Scope.Basic

/-!
# The lexical scope

What is in scope at a place, told from places in the source alone. The definition that a place lies
in is the one that stands at the place or above it; where no definition stands inside another one,
there is at most one. The table of the module holds the declarations that lie in no definition, and
the table of the function those that lie in the same definition as the place; of both only those
that come before the place or lie inside it.

## Main definitions

* `Tree.definitionAround?`, `Tree.nameAround?`: the definition that a place lies in.
* `Tree.DefinitionsApart`: no definition stands inside another one.
* `Tree.scopeAt`: the scope at a place.

## Main statements

* `Tree.gather_eq`, `Tree.gather_split`: collecting declarations child by child.
* `Tree.entriesSeen_cons_none`, `Tree.entriesSeen_cons_some`, `Tree.entriesSeen_cons_of_defines`:
  what is seen from a place inside a child.
-/

namespace CallAudit

/-- What a walk has entered when it leaves the node at `c`: the nodes that come before it, and those
inside it. -/
def Place.seenFrom (c p : Place) : Bool := decide (p < c ∨ c <+: p)

namespace Place

theorem seenFrom_nil (p : Place) : seenFrom [] p = true := by simp [seenFrom]

theorem seenFrom_root (i : Nat) (c : Place) : seenFrom (i :: c) [] = true := by simp [seenFrom]

theorem seenFrom_cons_lt {i j : Nat} (h : j < i) (c p : Place) :
    seenFrom (i :: c) (j :: p) = true := by
  simp [seenFrom, List.cons_lt_cons_iff, h]

theorem seenFrom_cons_self (i : Nat) (c p : Place) :
    seenFrom (i :: c) (i :: p) = seenFrom c p := by
  simp [seenFrom]

theorem seenFrom_cons_gt {i j : Nat} (h : i < j) (c p : Place) :
    seenFrom (i :: c) (j :: p) = false := by
  have hne : i ≠ j := by omega
  have hlt : ¬ j < i := by omega
  simp [seenFrom, List.cons_lt_cons_iff, hlt, hne, Ne.symm hne]

end Place

namespace Tree

def definesAt (t : Tree) (p : Place) : Bool := (t.node? p).any definesFunction

/-- The place of the definition that a place lies in. -/
def definitionAround? (t : Tree) (p : Place) : Option Place := p.inits.find? t.definesAt

/-- The name of the definition that a place lies in. -/
def nameAround? (t : Tree) (p : Place) : Option String :=
  (t.definitionAround? p).bind fun d => (t.node? d).bind definedName?

/-- No definition stands inside another one. -/
def DefinitionsApart (t : Tree) : Prop :=
  ∀ d e : Place, t.definesAt d = true → t.definesAt e = true → d <+: e → d = e

def entriesAt (t : Tree) (p : Place) : List (ModuleName × Binding) := (t.node? p).elim [] entries

/-- What is declared at the places with a property, in the order of the source. -/
def gather (t : Tree) (P : Place → Bool) : List (ModuleName × Binding) :=
  (t.places.filter P).flatMap t.entriesAt

/-- What is declared before `c` or inside it in the definition at `d`, or in no definition. -/
def entriesSeen (t : Tree) (c : Place) (d : Option Place) : List (ModuleName × Binding) :=
  t.gather fun p => c.seenFrom p && decide (t.definitionAround? p = d)

/-- What is declared in a tree outside of its definitions. -/
def ownEntries (t : Tree) : List (ModuleName × Binding) :=
  t.gather fun p => decide (t.definitionAround? p = none)

/-- The scope at a place. -/
def scopeAt (t : Tree) (c : Place) : Scope where
  outer := Table.insertAll {} (t.entriesSeen c none)
  inner :=
    match t.definitionAround? c with
    | none => {}
    | some d => Table.insertAll {} (t.entriesSeen c (some d))

section Definitions

variable {t u : Tree} {i : Nat}

theorem definesAt_cons (hu : t.children[i]? = some u) (p : Place) :
    t.definesAt (i :: p) = u.definesAt p := by
  rw [definesAt, definesAt, node?_cons hu]

theorem mem_places_of_definesAt {p : Place} (h : t.definesAt p = true) : p ∈ t.places := by
  rw [mem_places_iff]
  exact Option.isSome_of_any h

theorem definitionAround?_of_defines (h : t.definesFunction = true) (p : Place) :
    t.definitionAround? p = some [] := by
  have hroot : t.definesAt [] = true := h
  cases p with
  | nil => simp [definitionAround?, hroot]
  | cons i p => simp [definitionAround?, hroot]

theorem definitionAround?_nil (h : t.definesFunction = false) : t.definitionAround? [] = none := by
  have hroot : t.definesAt [] = false := h
  simp [definitionAround?, hroot]

theorem definitionAround?_cons (h : t.definesFunction = false) (hu : t.children[i]? = some u)
    (p : Place) : t.definitionAround? (i :: p) = (u.definitionAround? p).map (i :: ·) := by
  have hroot : t.definesAt [] = false := h
  have hinside : (t.definesAt ∘ fun r => i :: r) = u.definesAt := funext (definesAt_cons hu)
  rw [definitionAround?, List.inits_cons, List.find?_cons_of_neg (by simp [hroot]), List.find?_map,
    hinside]
  rfl

theorem definitionAround?_eq_none (h : ∀ p, t.definesAt p = false) (p : Place) :
    t.definitionAround? p = none := by
  simp [definitionAround?, h]

theorem nameAround?_of_defines (h : t.definesFunction = true) (p : Place) :
    t.nameAround? p = t.definedName? := by
  rw [nameAround?, definitionAround?_of_defines h]
  rfl

theorem nameAround?_nil (h : t.definesFunction = false) : t.nameAround? [] = none := by
  rw [nameAround?, definitionAround?_nil h]
  rfl

theorem nameAround?_cons (h : t.definesFunction = false) (hu : t.children[i]? = some u)
    (p : Place) : t.nameAround? (i :: p) = u.nameAround? p := by
  rw [nameAround?, nameAround?, definitionAround?_cons h hu]
  cases u.definitionAround? p with
  | none => rfl
  | some d => simp [node?_cons hu]

theorem nameAround?_eq_none (h : ∀ p, t.definesAt p = false) (p : Place) :
    t.nameAround? p = none := by
  rw [nameAround?, definitionAround?_eq_none h]
  rfl

theorem DefinitionsApart.child (h : t.DefinitionsApart) (hu : t.children[i]? = some u) :
    u.DefinitionsApart := by
  intro d e hd he hde
  have hcons : i :: d = i :: e := by
    apply h
    · rw [definesAt_cons hu, hd]
    · rw [definesAt_cons hu, he]
    · exact List.cons_prefix_cons.mpr ⟨rfl, hde⟩
  exact (List.cons.inj hcons).2

theorem DefinitionsApart.definesAt_child (h : t.DefinitionsApart) (ht : t.definesFunction = true)
    (hu : t.children[i]? = some u) (p : Place) : u.definesAt p = false := by
  by_contra hp
  rw [Bool.not_eq_false] at hp
  have hroot : ([] : Place) = i :: p := by
    apply h
    · exact ht
    · rw [definesAt_cons hu, hp]
    · exact List.nil_prefix
  exact List.cons_ne_nil i p hroot.symm

theorem entries_eq_nil (h : t.definesFunction = true) : t.entries = [] := by
  cases t with
  | declare declaration => simp [definesFunction, definedName?] at h
  | _ => rfl

end Definitions

/-- Whether definitions are apart can be decided by looking at the places of the tree. -/
instance (t : Tree) : Decidable t.DefinitionsApart :=
  decidable_of_iff (∀ d ∈ t.places, ∀ e ∈ t.places,
    t.definesAt d = true → t.definesAt e = true → d <+: e → d = e) <| by
    constructor
    · intro h d e hd he
      exact h d (mem_places_of_definesAt hd) e (mem_places_of_definesAt he) hd he
    · intro h d _ e _ hd he
      exact h d e hd he

section Gather

variable {t u : Tree} {i : Nat}

theorem gather_congr {P Q : Place → Bool} (h : ∀ p, P p = Q p) : t.gather P = t.gather Q := by
  rw [funext h]

theorem gather_eq_nil {P : Place → Bool} (h : ∀ p, P p = false) : t.gather P = [] := by
  simp [gather, h]

/-- What is declared in a tree is declared at its root or in one of its children. -/
theorem gather_eq (t : Tree) (P : Place → Bool) :
    t.gather P = (if P [] then t.entries else []) ++
      t.children.zipIdx.flatMap fun x => x.1.gather fun p => P (x.2 :: p) := by
  have hchild : ∀ x ∈ t.children.zipIdx,
      ((x.1.places.map (x.2 :: ·)).filter P).flatMap t.entriesAt =
        x.1.gather fun p => P (x.2 :: p) := by
    rintro ⟨u, i⟩ hu
    have hentries : ∀ p, t.entriesAt (i :: p) = u.entriesAt p := by
      intro p
      rw [entriesAt, node?_cons (List.mem_zipIdx_iff_getElem?.mp hu), entriesAt]
    simp only [gather, List.filter_map, List.flatMap_map, hentries]
    rfl
  have hroot : t.entriesAt [] = t.entries := rfl
  rw [gather, places_eq, List.filter_cons, List.filter_flatMap]
  split
  · rw [List.flatMap_cons, hroot, List.flatMap_assoc, List.flatMap_congr hchild]
  · rw [List.flatMap_assoc, List.flatMap_congr hchild, List.nil_append]

theorem flatMap_zipIdx_split {β : Type} {ts : List Tree} {n : Nat} (hu : ts[i]? = some u)
    {f : Tree × Nat → List β} {F : Tree → List β}
    (hbefore : ∀ j v, j < i → ts[j]? = some v → f (v, n + j) = F v)
    (hafter : ∀ j v, i < j → ts[j]? = some v → f (v, n + j) = []) :
    (ts.zipIdx n).flatMap f = (ts.take i).flatMap F ++ f (u, n + i) := by
  induction ts generalizing n i with
  | nil => simp at hu
  | cons t ts ih =>
    rw [List.zipIdx_cons, List.flatMap_cons]
    cases i with
    | zero =>
      obtain rfl : t = u := Option.some.inj hu
      have hrest : (ts.zipIdx (n + 1)).flatMap f = [] := by
        rw [List.flatMap_eq_nil_iff]
        rintro ⟨v, j⟩ hv
        obtain ⟨hj, hv⟩ := List.mk_mem_zipIdx_iff_le_and_getElem?_sub.mp hv
        have := hafter (j - (n + 1) + 1) v (by omega) hv
        rwa [show n + (j - (n + 1) + 1) = j by omega] at this
      rw [hrest, List.append_nil]
      rfl
    | succ i =>
      -- The first tree comes before the one at which the list is split, and indices shift by one.
      have hfirst : f (t, n) = F t := hbefore 0 t (by omega) rfl
      have hshift : ∀ j, n + 1 + j = n + (j + 1) := by omega
      have hrest := ih (n := n + 1) (i := i) hu
        (fun j v hj hv => by rw [hshift]; exact hbefore (j + 1) v (by omega) hv)
        (fun j v hj hv => by rw [hshift]; exact hafter (j + 1) v (by omega) hv)
      rw [hfirst, hrest, hshift, List.take_succ_cons, List.flatMap_cons, List.append_assoc]

/-- What is declared in a tree, split at one of its children: what comes before it, and nothing from
what comes after it. -/
theorem gather_split (hu : t.children[i]? = some u) {P : Place → Bool}
    {F : Tree → List (ModuleName × Binding)}
    (hbefore : ∀ j v, j < i → t.children[j]? = some v → (v.gather fun p => P (j :: p)) = F v)
    (hafter : ∀ j v, i < j → t.children[j]? = some v → (v.gather fun p => P (j :: p)) = []) :
    t.gather P = (if P [] then t.entries else []) ++ (t.children.take i).flatMap F ++
      u.gather fun p => P (i :: p) := by
  rw [gather_eq, List.append_assoc]
  congr 1
  have hsplit := flatMap_zipIdx_split (n := 0) (f := fun x => x.1.gather fun p => P (x.2 :: p)) hu
    (fun j v hj hv => by rw [Nat.zero_add]; exact hbefore j v hj hv)
    (fun j v hj hv => by rw [Nat.zero_add]; exact hafter j v hj hv)
  rwa [Nat.zero_add] at hsplit

end Gather

section Seen

variable {t u : Tree} {i : Nat}

theorem ownEntries_of_defines (h : t.definesFunction = true) : t.ownEntries = [] := by
  apply gather_eq_nil
  intro p
  simp [definitionAround?_of_defines h]

theorem ownEntries_eq (h : t.definesFunction = false) :
    t.ownEntries = t.entries ++ t.children.flatMap ownEntries := by
  have hchild : ∀ x ∈ t.children.zipIdx,
      (x.1.gather fun p => decide (t.definitionAround? (x.2 :: p) = none)) = x.1.ownEntries := by
    rintro ⟨u, i⟩ hu
    apply gather_congr
    intro p
    simp [definitionAround?_cons h (List.mem_zipIdx_iff_getElem?.mp hu)]
  have hfst : t.children.zipIdx.flatMap (fun x => x.1.ownEntries) =
      t.children.flatMap ownEntries := by
    conv_rhs => rw [← List.zipIdx_map_fst 0 t.children, List.flatMap_map]
  rw [ownEntries, gather_eq, List.flatMap_congr hchild, hfst]
  simp [definitionAround?_nil h]

theorem gather_true_of_none (h : ∀ p, t.definesAt p = false) :
    t.gather (fun _ => true) = t.ownEntries := by
  apply gather_congr
  intro p
  simp [definitionAround?_eq_none h]

theorem entriesSeen_root (t : Tree) : t.entriesSeen [] none = t.ownEntries := by
  apply gather_congr
  intro p
  rw [Place.seenFrom_nil, Bool.true_and]

theorem entriesSeen_none_of_defines (h : t.definesFunction = true) (c : Place) :
    t.entriesSeen c none = [] := by
  apply gather_eq_nil
  intro p
  simp [definitionAround?_of_defines h]

/-- Outside of definitions, what is seen from inside a child is what is declared at the root and in
the children before it, and what is seen in the child. -/
theorem entriesSeen_cons_none (h : t.definesFunction = false) (hu : t.children[i]? = some u)
    (c : Place) :
    t.entriesSeen (i :: c) none =
      t.entries ++ (t.children.take i).flatMap ownEntries ++ u.entriesSeen c none := by
  rw [entriesSeen, gather_split hu (F := ownEntries)]
  · congr 1
    · simp [Place.seenFrom_root, definitionAround?_nil h]
    · apply gather_congr
      intro p
      simp [Place.seenFrom_cons_self, definitionAround?_cons h hu]
  · intro j v hj hv
    apply gather_congr
    intro p
    simp [Place.seenFrom_cons_lt hj, definitionAround?_cons h hv]
  · intro j v hj hv
    apply gather_eq_nil
    intro p
    rw [Place.seenFrom_cons_gt hj, Bool.false_and]

theorem entriesSeen_cons_some (h : t.definesFunction = false) (hu : t.children[i]? = some u)
    (c d : Place) : t.entriesSeen (i :: c) (some (i :: d)) = u.entriesSeen c (some d) := by
  have helsewhere : ∀ j v, j ≠ i → t.children[j]? = some v →
      (v.gather fun p => Place.seenFrom (i :: c) (j :: p) &&
        decide (t.definitionAround? (j :: p) = some (i :: d))) = [] := by
    intro j v hj hv
    apply gather_eq_nil
    intro p
    simp [definitionAround?_cons h hv, hj]
  -- The definition is in the child `i`, so the root and the other children contribute nothing.
  rw [entriesSeen, gather_split hu (F := fun _ => [])]
  · have hroot : (t.definitionAround? [] = some (i :: d)) = False := by
      simp [definitionAround?_nil h]
    simp only [hroot, decide_false, Bool.and_false, Bool.false_eq_true, if_false, List.nil_append]
    rw [List.flatMap_eq_nil_iff.mpr (fun _ _ => rfl), List.nil_append]
    apply gather_congr
    intro p
    simp [Place.seenFrom_cons_self, definitionAround?_cons h hu]
  · intro j v hj hv
    exact helsewhere j v (by omega) hv
  · intro j v hj hv
    exact helsewhere j v (by omega) hv

/-- What is seen in a definition from inside a child is what is declared in the children before it,
and what is seen in the child. -/
theorem entriesSeen_cons_of_defines (ht : t.DefinitionsApart) (h : t.definesFunction = true)
    (hu : t.children[i]? = some u) (c : Place) :
    t.entriesSeen (i :: c) (some []) =
      (t.children.take i).flatMap ownEntries ++ u.entriesSeen c none := by
  have haround : ∀ p, (t.definitionAround? p = some []) = True := by
    simp [definitionAround?_of_defines h]
  rw [entriesSeen, gather_split hu (F := ownEntries)]
  · rw [entries_eq_nil h, ite_self, List.nil_append]
    congr 1
    apply gather_congr
    intro p
    have hnone := definitionAround?_eq_none (ht.definesAt_child h hu) p
    simp [Place.seenFrom_cons_self, haround, hnone]
  · intro j v hj hv
    rw [← gather_true_of_none (ht.definesAt_child h hv)]
    apply gather_congr
    intro p
    simp [Place.seenFrom_cons_lt hj, haround]
  · intro j v hj hv
    apply gather_eq_nil
    intro p
    rw [Place.seenFrom_cons_gt hj, Bool.false_and]

end Seen

end Tree

end CallAudit
