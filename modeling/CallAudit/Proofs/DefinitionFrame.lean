import CallAudit.Proofs.WalkState

/-!
# What a definition leaves behind

A definition is a bracket in a walk: what is declared in it goes to the table of the function, which
is empty again behind it. This holds up to definitions inside definitions. A walk has room for one
function only, so behind an inner definition it is in none, although the outer one goes on, and what
is declared there goes to the table of the module.

A definition that is in no function therefore gives back the function and the table of the function
as they were, whatever stands in it. It gives back the table of the module if in each function the
declarations come before the definitions inside it.

## Main definitions

* `Tree.DeclarationsFirst`: no declaration comes behind a definition inside the same function.

## Main statements

* `Query.outer_walk`: when a walk through a tree leaves the table of the module alone.
* `Query.walk_define`: what a definition gives back.
-/

namespace CallAudit

namespace Tree

/-- Each declaration lies in a definition. -/
def Sheltered (t : Tree) : Prop :=
  ∀ p : Place, t.entriesAt p ≠ [] → ∃ e, t.definesAt e = true ∧ e <+: p

/-- In each function the declarations come before the definitions inside it: the definition that
begins last before a declaration is one that the declaration lies in. -/
def DeclarationsFirst (t : Tree) : Prop :=
  ∀ d p : Place, t.definesAt d = true → t.entriesAt p ≠ [] → d < p →
    ∃ e, t.definesAt e = true ∧ ¬ e < d ∧ e <+: p

instance (t : Tree) : Decidable t.DeclarationsFirst :=
  decidable_of_iff (∀ d ∈ t.places, ∀ p ∈ t.places, t.definesAt d = true → t.entriesAt p ≠ [] →
    d < p → ∃ e ∈ p.inits, t.definesAt e = true ∧ ¬ e < d) <| by
    have hdeclaration : ∀ p, t.entriesAt p ≠ [] → p ∈ t.places := by
      intro p hp
      rw [mem_places_iff, Option.isSome_iff_ne_none]
      intro hnone
      rw [entriesAt, hnone] at hp
      exact hp rfl
    constructor
    · intro h d p hd hp hlt
      obtain ⟨e, he, hdefines, hnot⟩ :=
        h d (mem_places_of_definesAt hd) p (hdeclaration p hp) hd hp hlt
      exact ⟨e, hdefines, hnot, (List.mem_inits e p).mp he⟩
    · intro h d _ p _ hd hp hlt
      obtain ⟨e, hdefines, hnot, he⟩ := h d p hd hp hlt
      exact ⟨e, (List.mem_inits e p).mpr he, hdefines, hnot⟩

variable {t u v : Tree} {i j : Nat}

theorem entriesAt_cons (hu : t.children[i]? = some u) (p : Place) :
    t.entriesAt (i :: p) = u.entriesAt p := by
  rw [entriesAt, entriesAt, node?_cons hu]

/-- A definition around a place in a child, if it is not the root, is one of the child. -/
theorem definesAt_of_prefix_cons (hu : t.children[i]? = some u) {e p : Place}
    (he : t.definesAt e = true) (hne : e ≠ []) (hp : e <+: i :: p) :
    ∃ e', e = i :: e' ∧ u.definesAt e' = true ∧ e' <+: p := by
  rcases List.prefix_cons_iff.mp hp with rfl | ⟨e', rfl, hp'⟩
  · exact absurd rfl hne
  · exact ⟨e', rfl, by rw [← definesAt_cons hu, he], hp'⟩

theorem Sheltered.child (h : t.Sheltered) (ht : t.definesFunction = false)
    (hu : t.children[i]? = some u) : u.Sheltered := by
  intro p hp
  obtain ⟨e, he, hep⟩ := h (i :: p) (by rwa [entriesAt_cons hu])
  have hne : e ≠ [] := by
    rintro rfl
    exact Bool.false_ne_true (ht.symm.trans he)
  obtain ⟨e', -, he', hp'⟩ := definesAt_of_prefix_cons hu he hne hep
  exact ⟨e', he', hp'⟩

theorem Sheltered.entries_eq_nil (h : t.Sheltered) (ht : t.definesFunction = false) :
    t.entries = [] := by
  by_contra hne
  obtain ⟨e, he, hp⟩ := h [] hne
  rw [List.prefix_nil.mp hp] at he
  exact Bool.false_ne_true (ht.symm.trans he)

namespace DeclarationsFirst

/-- A declaration in a child that comes behind a definition in a child lies in a definition of its own
child, which does not begin before that one. -/
theorem definition_in_child (h : t.DeclarationsFirst) (hu : t.children[i]? = some u)
    (hv : t.children[j]? = some v) {d p : Place} (hd : u.definesAt d = true)
    (hp : v.entriesAt p ≠ []) (hlt : i :: d < j :: p) :
    ∃ e, v.definesAt e = true ∧ ¬ j :: e < i :: d ∧ e <+: p := by
  obtain ⟨e, he, hnot, hep⟩ := h (i :: d) (j :: p) (by rw [definesAt_cons hu, hd])
    (by rwa [entriesAt_cons hv]) hlt
  have hne : e ≠ [] := by
    rintro rfl
    exact hnot (List.nil_lt_cons i d)
  obtain ⟨e', rfl, he', hp'⟩ := definesAt_of_prefix_cons hv he hne hep
  exact ⟨e', he', hnot, hp'⟩

theorem child (h : t.DeclarationsFirst) (hu : t.children[i]? = some u) : u.DeclarationsFirst := by
  intro d p hd hp hlt
  obtain ⟨e, he, hnot, hep⟩ := h.definition_in_child hu hu hd hp (List.cons_lt_cons_self.mpr hlt)
  exact ⟨e, he, fun hlt' => hnot (List.cons_lt_cons_self.mpr hlt'), hep⟩

/-- Behind a child with a definition, the declarations of a child lie in definitions of that child. -/
theorem pairwise_children (h : t.DeclarationsFirst) :
    t.children.Pairwise fun u v => (∃ d, u.definesAt d = true) → v.Sheltered := by
  rw [List.pairwise_iff_getElem]
  rintro i j hi hj hij ⟨d, hd⟩ p hp
  obtain ⟨e, he, -, hep⟩ := h.definition_in_child (List.getElem?_eq_getElem hi)
    (List.getElem?_eq_getElem hj) hd hp (List.cons_lt_cons_iff.mpr (Or.inl hij))
  exact ⟨e, he, hep⟩

end DeclarationsFirst

end Tree

namespace Query

theorem outer_enter {t : Tree} {s : Search} (h : s.current = none → t.entries = []) :
    (enter t s).scope.outer = s.scope.outer := by
  cases hc : s.current with
  | none => simp [enter, Scope.declare, hc, h hc]
  | some name => simp [enter, Scope.declare, hc]

theorem outer_leave (q : Query) (t : Tree) (s : Search) :
    (q.leave t s).scope.outer = s.scope.outer := by
  cases ht : t.definesFunction with
  | false => rw [(leave_of_not_defines q ht s).2]
  | true =>
    rw [(leave_of_defines q ht s).2]
    rfl

theorem outer_walkAll {q : Query} {ts : List Tree} {s : Search}
    (hwalk : ∀ u ∈ ts, ∀ s : Search, (s.current = none → u.Sheltered) →
      (q.walk u s).scope.outer = s.scope.outer)
    (hfirst : s.current = none → ∀ u ∈ ts, u.Sheltered)
    (hlater : ts.Pairwise fun u v => (∃ d, u.definesAt d = true) → v.Sheltered) :
    (q.walkAll ts s).scope.outer = s.scope.outer := by
  induction ts generalizing s with
  | nil => rfl
  | cons t ts ih =>
    obtain ⟨hafter, hrest⟩ := List.pairwise_cons.mp hlater
    -- A walk that is in no function behind `t` was in none before it, or has passed a definition.
    have hnext : (q.walk t s).current = none → ∀ u ∈ ts, u.Sheltered := by
      intro hc u hu
      rcases current_walk q t s with hsame | ⟨-, hd⟩
      · exact hfirst (hsame.symm.trans hc) u (List.mem_cons_of_mem t hu)
      · exact hafter u hu hd
    rw [walkAll_cons, ih (fun u hu => hwalk u (List.mem_cons_of_mem t hu)) hnext hrest]
    exact hwalk t List.mem_cons_self s fun hc => hfirst hc t List.mem_cons_self

/-- A walk leaves the table of the module alone if declarations come first in the tree and, for a
walk that is in no function, lie in definitions. -/
theorem outer_walk (q : Query) {t : Tree} {s : Search} (ht : t.DeclarationsFirst)
    (hs : s.current = none → t.Sheltered) : (q.walk t s).scope.outer = s.scope.outer := by
  induction t using Tree.children_induction generalizing s with
  | node t ih =>
    have hroot : s.current = none → t.entries = [] := by
      intro hc
      cases hdefines : t.definesFunction with
      | false => exact (hs hc).entries_eq_nil hdefines
      | true => exact Tree.entries_eq_nil hdefines
    have hfirst : (enter t s).current = none → ∀ u ∈ t.children, u.Sheltered := by
      intro hc u hu
      obtain ⟨i, hi⟩ := List.getElem?_of_mem hu
      obtain ⟨hname, hcurrent⟩ := Option.or_eq_none_iff.mp hc
      exact (hs hcurrent).child (by rw [Tree.definesFunction, hname]; rfl) hi
    have hwalk : ∀ u ∈ t.children, ∀ s : Search, (s.current = none → u.Sheltered) →
        (q.walk u s).scope.outer = s.scope.outer := by
      intro u hu s hu'
      obtain ⟨i, hi⟩ := List.getElem?_of_mem hu
      exact ih u hu (ht.child hi) hu'
    rw [walk_eq_walkAll, outer_leave, outer_walkAll hwalk hfirst ht.pairwise_children,
      outer_enter hroot]

/-- In every state that a walk can be in, a definition gives back the function and the table of the
function if the walk is in no function, and the table of the module if declarations come first in
the definition. -/
theorem walk_define (q : Query) (visibility : Visibility) (name : String) (params body : List Tree)
    {s : Search} (hs : s.Reachable q) :
    (s.current = none →
      (q.walk (.define visibility name params body) s).current = s.current ∧
      (q.walk (.define visibility name params body) s).scope.inner = s.scope.inner) ∧
    ((Tree.define visibility name params body).DeclarationsFirst →
      (q.walk (.define visibility name params body) s).scope.outer = s.scope.outer) := by
  have hdefines : (Tree.define visibility name params body).definesFunction = true := rfl
  constructor
  · intro hc
    rw [hs.inner_eq_empty hc, hc]
    exact walk_of_defines q hdefines s
  · intro hfirst
    apply outer_walk q hfirst
    intro _ p _
    exact ⟨[], hdefines, List.nil_prefix⟩

/-- A function with an import and, behind it, another function inside, which has an alias. -/
def nestedFunction : Tree :=
  .define .public "run" [.var "x"] [
    .declare (.importing ⟨"Local", []⟩ none []),
    .define .private "helper" [] [.declare (.aliasing ⟨"Deep", ["Repo"]⟩ none [])],
    .call (.bare "helper") []]

/-- Behind an alias in the module, the function leaves no trace. -/
theorem walk_nestedFunction :
    let s := absent.walk (.declare (.aliasing ⟨"App", ["Repo"]⟩ none [])) {}
    s.Reachable absent ∧ s.current = none ∧ nestedFunction.DeclarationsFirst ∧
      (absent.walk nestedFunction s).current = s.current ∧
      (absent.walk nestedFunction s).scope.inner = s.scope.inner ∧
      (absent.walk nestedFunction s).scope.outer = s.scope.outer := by
  intro s
  have hs : s.Reachable absent := Search.Reachable.start.walk _
  have hc : s.current = none := rfl
  have hfirst : nestedFunction.DeclarationsFirst := by decide
  obtain ⟨hinside, houtside⟩ := walk_define absent .public "run" [.var "x"] _ hs
  exact ⟨hs, hc, hfirst, (hinside hc).1, (hinside hc).2, houtside hfirst⟩

/-- A function that imports a module before and behind another function inside. -/
def leakingFunction : Tree :=
  .define .public "run" [] [
    .declare (.importing ⟨"Early", []⟩ none []),
    .define .private "helper" [] [],
    .declare (.importing ⟨"Late", []⟩ none [])]

/-- Behind the function its late import is in the table of the module. Behind the function inside,
the walk has lost the outer function and its early import. -/
theorem leakingFunction_not_bracketed :
    (absent.walk leakingFunction {}).scope.outer ≠ ({} : Search).scope.outer ∧
      let s := absent.walk (.declare (.importing ⟨"Early", []⟩ none [])) (enter leakingFunction {})
      s.Reachable absent ∧
        (absent.walk (.define .private "helper" [] []) s).current ≠ s.current ∧
        (absent.walk (.define .private "helper" [] []) s).scope.inner ≠ s.scope.inner := by
  refine ⟨by decide, ?_, by decide, by decide⟩
  exact (Search.Reachable.start.enter leakingFunction).walk _

end Query

end CallAudit
