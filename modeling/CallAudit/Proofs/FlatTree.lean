import CallAudit.Proofs.Events
import CallAudit.Proofs.Place

/-!
# Flat trees

Some other form and a function head are wrappers: a walk does nothing at them and goes through their
children. A tree is made flat by putting the children of a wrapper in its place, wherever it stands
in a row of trees: among the children of some other form, the parameters of a function and the
statements of its body. The arguments of a call are no such row. Their number counts when the call is
matched, so a wrapper among them stays, as does one that is the receiver, and only what is inside it
is made flat.

## Main definitions

* `Tree.isWrapper`, `Tree.unwrap`: wrappers, and what is put in the place of a tree in a row.
* `Tree.flat`: a tree made flat.
* `Tree.IsFlat`: no wrapper stands in a row.

## Main statements

* `Tree.isFlat_flat`: making a tree flat takes all wrappers out of the rows.
* `Query.walk_flat`: a walk does not tell a tree from its flat form.
* `Query.occursIn_flat`: nor does a search.
-/

namespace CallAudit

namespace Tree

def isWrapper : Tree → Bool
  | .head _ _ _ => true
  | .other _ _ => true
  | _ => false

/-- What is put in the place of a tree in a row. -/
def unwrap (t : Tree) : List Tree := if t.isWrapper then t.children else [t]

mutual

/-- The tree made flat. The tree itself stands in no row and stays, even if it is a wrapper; so does
a body that becomes empty. -/
def flat : Tree → Tree
  | .call callee args => .call callee (flatEach args)
  | .callOn receiver name args => .callOn (flat receiver) name (flatEach args)
  | .define visibility name params body => .define visibility name (flatRow params) (flatRow body)
  | .head visibility name params => .head visibility name (flatRow params)
  | .declare declaration => .declare declaration
  | .var name => .var name
  | .literal value => .literal value
  | .other form children => .other form (flatRow children)
termination_by structural t => t

/-- Trees that keep their places, each made flat. -/
def flatEach : List Tree → List Tree
  | [] => []
  | t :: ts => flat t :: flatEach ts
termination_by structural ts => ts

/-- A row of trees made flat. -/
def flatRow : List Tree → List Tree
  | [] => []
  | t :: ts => (flat t).unwrap ++ flatRow ts
termination_by structural ts => ts

end

/-- No wrapper stands in a row of the tree, which the children of every node but a call are. -/
def IsFlat (t : Tree) : Prop :=
  ∀ (p : Place) (v : Tree), t.node? p = some v → v.isCall = false →
    ∀ u ∈ v.children, u.isWrapper = false

theorem flatEach_eq_flatMap (ts : List Tree) : flatEach ts = ts.flatMap fun t => [t.flat] := by
  induction ts with
  | nil => rfl
  | cons t ts ih =>
    rw [flatEach, ih, List.flatMap_cons]
    rfl

theorem flatRow_eq_flatMap (ts : List Tree) : flatRow ts = ts.flatMap fun t => t.flat.unwrap := by
  induction ts with
  | nil => rfl
  | cons t ts ih => rw [flatRow, ih, List.flatMap_cons]

theorem length_flatEach (ts : List Tree) : (flatEach ts).length = ts.length := by
  simp [flatEach_eq_flatMap]

theorem isCall_flat (t : Tree) : t.flat.isCall = t.isCall := by cases t <;> rfl

theorem definedName?_flat (t : Tree) : t.flat.definedName? = t.definedName? := by cases t <;> rfl

theorem entries_flat (t : Tree) : t.flat.entries = t.entries := by cases t <;> rfl

/-- The number of arguments is kept, and no more of them is looked at. -/
theorem isCallTo_flat (t : Tree) (sig : Option Signature) (scope : Scope) :
    t.flat.isCallTo sig scope = t.isCallTo sig scope := by
  cases t with
  | call callee args =>
    cases sig with
    | none => rfl
    | some sig =>
      change sig.matchesCallee callee (flatEach args).length scope = _
      rw [length_flatEach]
      rfl
  | _ => rfl

/-- Each child of a node is replaced by its flat form, or by what that is unwrapped to. -/
theorem children_flat (t : Tree) :
    t.flat.children =
      t.children.flatMap fun u => if t.isCall then [u.flat] else u.flat.unwrap := by
  cases t with
  | call callee args => exact flatEach_eq_flatMap args
  | callOn receiver name args => exact congrArg (receiver.flat :: ·) (flatEach_eq_flatMap args)
  | define visibility name params body =>
    change flatRow params ++ flatRow body = (params ++ body).flatMap fun u => u.flat.unwrap
    rw [List.flatMap_append, flatRow_eq_flatMap, flatRow_eq_flatMap]
  | head visibility name params => exact flatRow_eq_flatMap params
  | other form ts => exact flatRow_eq_flatMap ts
  | declare declaration => rfl
  | var name => rfl
  | literal value => rfl

theorem inert_of_isWrapper {t : Tree} (h : t.isWrapper = true) :
    t.isCall = false ∧ t.definedName? = none ∧ t.entries = [] := by
  cases t with
  | head visibility name params => exact ⟨rfl, rfl, rfl⟩
  | other form ts => exact ⟨rfl, rfl, rfl⟩
  | _ => exact absurd h Bool.false_ne_true

theorem isFlat_iff {t : Tree} :
    t.IsFlat ↔ (t.isCall = false → ∀ u ∈ t.children, u.isWrapper = false) ∧
      ∀ u ∈ t.children, u.IsFlat := by
  constructor
  · intro h
    refine ⟨h [] t rfl, ?_⟩
    intro u hu p v hv
    obtain ⟨i, hi⟩ := List.getElem?_of_mem hu
    exact h (i :: p) v (by rw [node?_cons hi, hv])
  · rintro ⟨hroot, hchildren⟩ p v hv
    cases p with
    | nil =>
      obtain rfl : t = v := Option.some.inj hv
      exact hroot
    | cons i p =>
      obtain ⟨u, hu, hv⟩ := node?_cons_eq_some_iff.mp hv
      exact hchildren u (List.mem_of_getElem? hu) p v hv

/-- The trees that a flat tree is unwrapped to are flat, and none of them is a wrapper. -/
theorem IsFlat.of_mem_unwrap {t u : Tree} (h : t.IsFlat) (hu : u ∈ t.unwrap) :
    u.isWrapper = false ∧ u.IsFlat := by
  rw [unwrap] at hu
  obtain ⟨hroot, hchildren⟩ := isFlat_iff.mp h
  cases ht : t.isWrapper with
  | true =>
    rw [if_pos ht] at hu
    exact ⟨hroot (inert_of_isWrapper ht).1 u hu, hchildren u hu⟩
  | false =>
    rw [if_neg (by simp [ht])] at hu
    obtain rfl := List.mem_singleton.mp hu
    exact ⟨ht, h⟩

theorem isFlat_flat (t : Tree) : t.flat.IsFlat := by
  induction t using children_induction with
  | node t ih =>
    rw [isFlat_iff, isCall_flat, children_flat]
    cases ht : t.isCall with
    | true =>
      refine ⟨fun h => absurd h.symm Bool.false_ne_true, ?_⟩
      intro w hw
      obtain ⟨u, hu, hw⟩ := List.mem_flatMap.mp hw
      obtain rfl := List.mem_singleton.mp hw
      exact ih u hu
    | false =>
      have hrow : ∀ w ∈ t.children.flatMap fun u => u.flat.unwrap,
          w.isWrapper = false ∧ w.IsFlat := by
        intro w hw
        obtain ⟨u, hu, hw⟩ := List.mem_flatMap.mp hw
        exact (ih u hu).of_mem_unwrap hw
      exact ⟨fun _ w hw => (hrow w hw).1, fun w hw => (hrow w hw).2⟩

example :
    flat (.define .public "run" [.other none [.var "x"]] [
        .head .public "stop" [.other none [.head .private "go" [.var "y"]]],
        .call (.bare "log") [.other none [.other none [.var "z"]], .var "w"]]) =
      .define .public "run" [.var "x"] [
        .var "y",
        .call (.bare "log") [.other none [.var "z"], .var "w"]] :=
  rfl

end Tree

namespace Query

theorem enter_flat (t : Tree) (s : Search) : enter t.flat s = enter t s := by
  rw [enter, enter, Scope.declare, Scope.declare, Tree.entries_flat, Tree.definedName?_flat]

theorem leave_flat (q : Query) (t : Tree) (s : Search) : q.leave t.flat s = q.leave t s := by
  rw [leave, leave, leaveDefinition, leaveDefinition, hits, hits, Tree.definesFunction,
    Tree.definesFunction, Tree.isCallTo_flat, Tree.isCall_flat, Tree.definedName?_flat]

/-- At a wrapper a walk does nothing but go through the children. -/
theorem walk_of_isWrapper (q : Query) {t : Tree} (ht : t.isWrapper = true) (s : Search) :
    q.walk t s = q.walkAll t.children s := by
  obtain ⟨hcall, hname, hentries⟩ := Tree.inert_of_isWrapper ht
  have henter : enter t s = s := by
    have hdeclare : s.scope.declare t s.current.isSome = s.scope := by
      rw [Scope.declare, hentries]
      split
      · rfl
      · rfl
    rw [enter, hdeclare, hname, Option.none_or]
  have hleave : ∀ a : Search, q.leave t a = a := by
    intro a
    rw [leave, hcall, Bool.false_and, Bool.or_false, leaveDefinition, Tree.definesFunction, hname]
    rfl
  rw [walk_eq_walkAll, henter, hleave]

theorem walkAll_unwrap (q : Query) (t : Tree) (s : Search) : q.walkAll t.unwrap s = q.walk t s := by
  rw [Tree.unwrap]
  split
  · next ht => exact (walk_of_isWrapper q ht s).symm
  · rfl

/-- Trees may be replaced by rows of trees one by one. -/
theorem walkAll_flatMap {q : Query} {row : Tree → List Tree} {ts : List Tree}
    (h : ∀ t ∈ ts, ∀ s, q.walkAll (row t) s = q.walk t s) (s : Search) :
    q.walkAll (ts.flatMap row) s = q.walkAll ts s := by
  induction ts generalizing s with
  | nil => rfl
  | cons t ts ih =>
    rw [List.flatMap_cons, walkAll_append, h t List.mem_cons_self, walkAll_cons]
    exact ih (fun u hu => h u (List.mem_cons_of_mem t hu)) _

theorem walk_flat (q : Query) (t : Tree) (s : Search) : q.walk t.flat s = q.walk t s := by
  induction t using Tree.children_induction generalizing s with
  | node t ih =>
    rw [walk_eq_walkAll, walk_eq_walkAll, leave_flat, enter_flat, Tree.children_flat]
    congr 1
    apply walkAll_flatMap
    intro u hu s
    split
    · exact ih u hu s
    · rw [walkAll_unwrap, ih u hu]

/-- A tree made flat has no wrapper in a row, and a search for anything gives the same answer in it
as in the tree. -/
theorem occursIn_flat (q : Query) (root : Tree) :
    root.flat.IsFlat ∧ q.occursIn root.flat = q.occursIn root := by
  refine ⟨root.isFlat_flat, ?_⟩
  rw [occursIn, occursIn, walk_flat]

end Query

end CallAudit
