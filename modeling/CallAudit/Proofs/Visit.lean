import Mathlib.Data.List.Forall2
import CallAudit.Tree.Basic

/-!
# Walks through trees

What holds of every walk through a tree, whatever it keeps and whatever it does at a node. The
children of a node are smaller than the node, so a property passes from the children to all trees;
from this, two walks that stay related at each single step are related at the end. They need not go
through the same tree, if only the children of the two trees correspond to each other.

## Main statements

* `Tree.children_induction`: a property that passes from the children to the node holds of all
  trees.
* `Tree.visit_forall₂`: two walks in step through two trees.
* `Tree.visit_rel`: two walks in step through one tree.
* `Tree.visit_invariant`: what each single step keeps, a walk keeps.
-/

namespace CallAudit

namespace Tree

theorem sizeOf_lt_of_mem_children {t u : Tree} (h : u ∈ t.children) : sizeOf u < sizeOf t := by
  cases t with
  | call callee args =>
    change u ∈ args at h
    have := List.sizeOf_lt_of_mem h
    simp only [call.sizeOf_spec]
    omega
  | callOn receiver name args =>
    simp only [callOn.sizeOf_spec]
    rcases List.mem_cons.mp h with rfl | h
    · omega
    · have := List.sizeOf_lt_of_mem h
      omega
  | define visibility name params body =>
    simp only [define.sizeOf_spec]
    rcases List.mem_append.mp h with h | h
    · have := List.sizeOf_lt_of_mem h
      omega
    · have := List.sizeOf_lt_of_mem h
      omega
  | head visibility name params =>
    change u ∈ params at h
    have := List.sizeOf_lt_of_mem h
    simp only [head.sizeOf_spec]
    omega
  | declare declaration => simp [children] at h
  | var name => simp [children] at h
  | literal value => simp [children] at h
  | other form ts =>
    change u ∈ ts at h
    have := List.sizeOf_lt_of_mem h
    simp only [other.sizeOf_spec]
    omega

/-- A property that passes from the children to the node holds of every tree. -/
@[elab_as_elim]
theorem children_induction {motive : Tree → Prop}
    (node : ∀ t, (∀ u ∈ t.children, motive u) → motive t) (t : Tree) : motive t :=
  node t fun u hu =>
    have := sizeOf_lt_of_mem_children hu
    children_induction node u
termination_by sizeOf t

variable {σ τ : Type} {enter leave : Tree → σ → σ} {enter' leave' : Tree → τ → τ}

/-- Two walks, each through its own tree, that stay related whenever both enter or both leave a node
are related after the trees, if the children of related trees are related one by one. -/
theorem visit_forall₂ {T : Tree → Tree → Prop} {R : σ → τ → Prop}
    (hchildren : ∀ t u, T t u → List.Forall₂ T t.children u.children)
    (henter : ∀ t u s s', T t u → R s s' → R (enter t s) (enter' u s'))
    (hleave : ∀ t u s s', T t u → R s s' → R (leave t s) (leave' u s'))
    {t u : Tree} (htu : T t u) {s : σ} {s' : τ} (h : R s s') :
    R (t.visit enter leave s) (u.visit enter' leave' s') := by
  induction t using children_induction generalizing u s s' with
  | node t ih =>
    rw [visit_eq, visit_eq]
    have hpairs : List.Forall₂
        (fun v w => ∀ s s', R s s' → R (v.visit enter leave s) (w.visit enter' leave' s'))
        t.children u.children := by
      have hboth := (List.forall₂_and_left _ _).mpr ⟨ih, hchildren t u htu⟩
      apply hboth.imp
      rintro v w ⟨hv, hvw⟩ s s' hs
      exact hv hvw hs
    apply hleave t u _ _ htu
    exact List.rel_foldl (fun _ _ hs _ _ hvw => hvw _ _ hs) (henter t u s s' htu h) hpairs

theorem visit_rel {R : σ → τ → Prop}
    (henter : ∀ t s s', R s s' → R (enter t s) (enter' t s'))
    (hleave : ∀ t s s', R s s' → R (leave t s) (leave' t s'))
    (t : Tree) {s : σ} {s' : τ} (h : R s s') :
    R (t.visit enter leave s) (t.visit enter' leave' s') := by
  refine visit_forall₂ (T := Eq) ?_ ?_ ?_ rfl h
  · rintro t _ rfl
    exact List.forall₂_refl _
  · rintro t _ s s' rfl hs
    exact henter t s s' hs
  · rintro t _ s s' rfl hs
    exact hleave t s s' hs

theorem visit_invariant {P : σ → Prop} (henter : ∀ t s, P s → P (enter t s))
    (hleave : ∀ t s, P s → P (leave t s)) (t : Tree) {s : σ} (h : P s) :
    P (t.visit enter leave s) := by
  induction t using children_induction generalizing s with
  | node t ih =>
    rw [visit_eq]
    apply hleave
    exact List.foldlRecOn _ _ (henter t s h) fun a ha u hu => ih u hu ha

end Tree

end CallAudit
