import CallAudit.Proofs.KeyOrder
import CallAudit.Proofs.Place

/-!
# Trees that can be read back

What a tree must be like for its text to be read, and which tree is read from it. The names and
numbers at each node have limits: no module name has an empty segment, no arity is beyond 64 bits,
and the literals hold only integers of 64 bits and objects without repeated keys. Only literals may
come back changed, with the keys of their objects in order.

## Main definitions

* `Tree.Writable`: at all places of a tree stands what can be read back.
* `Tree.canonical`: the tree with its literals in canonical form.
* `Tree.KeysAscend`: the keys in all literals of a tree are in order.

## Main statements

* `Tree.writable_iff`: a tree is writable if its root and its children are.
* `Tree.canonical_of_keysAscend`: where the keys are in order, nothing changes.
-/

namespace CallAudit

/-- The name has no empty segment. -/
def ModuleName.Filled (m : ModuleName) : Prop := "" ∉ m.segments

/-- The arity is below the bound of unsigned integers. -/
def FunctionRef.Fits (f : FunctionRef) : Prop := f.arity < Numeral.significandBound

/-- All arities in the rule fit. -/
def ImportRule.Fits : ImportRule → Prop
  | .only functions | .except functions => ∀ f ∈ functions, f.Fits
  | .onlyKind _ => True

/-- All names and arities in the declaration can be read back. -/
def Declaration.Writable : Declaration → Prop
  | .importing path rule group =>
    path.Filled ∧ (∀ r ∈ rule, r.Fits) ∧ ∀ m ∈ group, m.Filled
  | .aliasing path _ group => path.Filled ∧ ∀ m ∈ group, m.Filled

/-- The module in the callee can be read back. -/
def Callee.Writable : Callee → Prop
  | .ofModule module _ => module.Filled
  | .bare _ | .ofAtom _ _ => True

namespace Tree

/-- What stands at the root besides the children can be read back. -/
def RootWritable : Tree → Prop
  | .call callee _ => callee.Writable
  | .declare declaration => declaration.Writable
  | .literal value => value.Plain ∧ value.KeysDistinct
  | .callOn _ _ _ | .define _ _ _ _ | .head _ _ _ | .var _ | .other _ _ => True

/-- What stands at all places of the tree can be read back. -/
def Writable (t : Tree) : Prop := ∀ p u, t.node? p = some u → u.RootWritable

/-- The keys of all objects in literals of the tree ascend. -/
def KeysAscend (t : Tree) : Prop := ∀ p v, t.node? p = some (.literal v) → v.KeysAscend

theorem writable_iff {t : Tree} :
    t.Writable ↔ t.RootWritable ∧ ∀ u ∈ t.children, u.Writable := by
  constructor
  · intro h
    refine ⟨h [] t rfl, fun u hu p v hv => ?_⟩
    obtain ⟨i, hi⟩ := List.getElem?_of_mem hu
    exact h (i :: p) v ((node?_cons hi p).trans hv)
  · rintro ⟨hroot, hchildren⟩ p v hv
    cases p with
    | nil =>
      obtain rfl : t = v := Option.some.inj hv
      exact hroot
    | cons i p =>
      obtain ⟨u, hu, hv⟩ := node?_cons_eq_some_iff.mp hv
      exact hchildren u (List.mem_of_getElem? hu) p v hv

theorem KeysAscend.child {t u : Tree} (h : t.KeysAscend) (hu : u ∈ t.children) :
    u.KeysAscend := by
  intro p v hv
  obtain ⟨i, hi⟩ := List.getElem?_of_mem hu
  exact h (i :: p) v ((node?_cons hi p).trans hv)

mutual

/-- The tree with its literals in canonical form. -/
def canonical : Tree → Tree
  | .call callee args => .call callee (canonicalAll args)
  | .callOn receiver name args => .callOn (canonical receiver) name (canonicalAll args)
  | .define visibility name params body =>
    .define visibility name (canonicalAll params) (canonicalAll body)
  | .head visibility name params => .head visibility name (canonicalAll params)
  | .declare declaration => .declare declaration
  | .var name => .var name
  | .literal value => .literal value.canonical
  | .other form children => .other form (canonicalAll children)
termination_by structural t => t

/-- The canonical forms of all trees. -/
def canonicalAll : List Tree → List Tree
  | [] => []
  | t :: ts => canonical t :: canonicalAll ts
termination_by structural ts => ts

end

theorem canonicalAll_eq_map (ts : List Tree) : canonicalAll ts = ts.map canonical := by
  induction ts with
  | nil => rfl
  | cons t ts ih => rw [canonicalAll, ih, List.map_cons]

theorem canonical_of_keysAscend {t : Tree} (h : t.KeysAscend) : t.canonical = t := by
  induction t using children_induction with
  | node t ih =>
    have hall (ts : List Tree) (hts : ts ⊆ t.children) : canonicalAll ts = ts := by
      rw [canonicalAll_eq_map]
      have hsame : ∀ u ∈ ts, u.canonical = u := fun u hu => ih u (hts hu) (h.child (hts hu))
      exact (List.map_congr_left hsame).trans (List.map_id' ts)
    cases t with
    | call callee args => rw [canonical, hall args (List.Subset.refl _)]
    | callOn receiver name args =>
      rw [canonical, hall args (List.subset_cons_self _ _),
        ih receiver List.mem_cons_self (h.child List.mem_cons_self)]
    | define visibility name params body =>
      rw [canonical, hall params (List.subset_append_left _ _),
        hall body (List.subset_append_right _ _)]
    | head visibility name params => rw [canonical, hall params (List.Subset.refl _)]
    | declare declaration => rfl
    | var name => rfl
    | literal value => rw [canonical, Json.canonical_of_keysAscend (h [] value rfl)]
    | other form ts => rw [canonical, hall ts (List.Subset.refl _)]

end Tree

end CallAudit
