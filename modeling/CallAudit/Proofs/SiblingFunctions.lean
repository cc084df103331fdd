import CallAudit.Proofs.LexicalSearch
import CallAudit.Proofs.WalkState

/-!
# Functions beside one another

A function that stands in no other one and has no other one in it leaves no trace in a walk: behind
it the walk is in the state before it, but for what it has found. So what a search finds in a row of
trees with such a function among them is what it finds up to the function and what it finds without
it, and two such functions that follow each other may trade places.

## Main definitions

* `Tree.LoneDefinition`: a definition with no other one in it.

## Main statements

* `Query.walk_lone_agree`: a function leaves no trace.
* `Query.occursIn_sibling_functions`: functions beside one another are searched on their own.
-/

namespace CallAudit

namespace Tree

/-- A definition with no other definition in it: there is one at the root and at no other place. -/
def LoneDefinition (t : Tree) : Prop := ∀ p : Place, t.definesAt p = true ↔ p = []

instance (t : Tree) : Decidable t.LoneDefinition :=
  decidable_of_iff (∀ p ∈ t.places, t.definesAt p = true ↔ p = []) <| by
    constructor
    · intro h p
      constructor
      · intro hp
        exact (h p (mem_places_of_definesAt hp)).mp hp
      · rintro rfl
        exact (h [] (mem_places_iff.mpr rfl)).mpr rfl
    · intro h p _
      exact h p

namespace LoneDefinition

variable {t : Tree}

theorem definesFunction (h : t.LoneDefinition) : t.definesFunction = true := (h []).mpr rfl

theorem definitionsApart (h : t.LoneDefinition) : t.DefinitionsApart := by
  intro d e hd he _
  rw [(h d).mp hd, (h e).mp he]

end LoneDefinition

end Tree

namespace Query

theorem occursIn_eq_finds (q : Query) (form : Option String) (ts : List Tree) :
    q.occursIn (.other form ts) = q.finds ts {} :=
  occursIn_other q form ts

/-- A function leaves no trace: behind it a walk is in the function and the scope that it was in. -/
theorem walk_lone_agree (q : Query) {t : Tree} (ht : t.LoneDefinition) {s : Search} (hs : s.AtTop) :
    (q.walk t s).Agree s := by
  have hfits : s.Fits t :=
    ⟨ht.definitionsApart, fun hc => absurd hc (by simp [hs.current]), fun _ => hs.inner⟩
  have habsent : absent.walk t s = s := by
    rw [walk_of_fits t hfits, Tree.ownEntries_of_defines ht.definesFunction, Search.declaring,
      Scope.enterAll_nil]
  have hagree : (q.walk t s).Agree (absent.walk t s) := walk_agree q absent t ⟨rfl, rfl⟩
  rwa [habsent] at hagree

/-- Behind a function, trees are searched as if it was not there. -/
theorem finds_lone_append (q : Query) {t : Tree} (ht : t.LoneDefinition) (ts : List Tree)
    {s : Search} (hs : s.AtTop) : q.finds ([t] ++ ts) s = (q.finds [t] s || q.finds ts s) := by
  rw [finds_append]
  congr 1
  exact finds_agree q ts (walk_lone_agree q ht hs)

/-- A search in trees with a function `d` among them finds something exactly if it finds something up
to `d` or without `d`, and two functions that follow each other may stand in either order. -/
theorem occursIn_sibling_functions (q : Query) (form : Option String) (xs ys : List Tree)
    {d d₁ d₂ : Tree} (hd : d.LoneDefinition) (h₁ : d₁.LoneDefinition) (h₂ : d₂.LoneDefinition) :
    q.occursIn (.other form (xs ++ [d] ++ ys)) =
      (q.occursIn (.other form (xs ++ [d])) || q.occursIn (.other form (xs ++ ys))) ∧
    q.occursIn (.other form (xs ++ [d₁, d₂] ++ ys)) =
      q.occursIn (.other form (xs ++ [d₂, d₁] ++ ys)) := by
  have htop := walkAll_atTop q xs
  constructor
  · simp only [occursIn_eq_finds, List.append_assoc, finds_append q xs, finds_lone_append q hd _ htop]
    cases q.finds xs {} with
    | false => rfl
    | true => rfl
  · -- Both orders come to the two functions and the rest, each searched behind `xs`.
    have hpair : ∀ e e' : Tree, [e, e'] ++ ys = [e] ++ ([e'] ++ ys) := fun _ _ => rfl
    simp only [occursIn_eq_finds, List.append_assoc, finds_append q xs, hpair,
      finds_lone_append q h₁ _ htop, finds_lone_append q h₂ _ htop]
    rw [Bool.or_left_comm (q.finds [d₁] _)]

/-- A function with an alias of its own and a call through it. -/
def shadowingFunction : Tree :=
  .define .public "run" [.var "x"] [
    .declare (.aliasing ⟨"Inner", ["Repo"]⟩ none []),
    .call (.ofModule ⟨"Repo", []⟩ "all") []]

/-- A function with the same call and no alias. -/
def callingFunction : Tree := .define .private "list" [] [.call (.ofModule ⟨"Repo", []⟩ "all") []]

/-- Behind an alias of the module, the alias of the first function does not hide the call of the
second one, in whichever order they stand. -/
theorem occursIn_shadowing_and_calling :
    let q : Query := ⟨some (.qualified ⟨"Outer", ["Repo"]⟩ "all"), none⟩
    let outer : Tree := .declare (.aliasing ⟨"Outer", ["Repo"]⟩ none [])
    shadowingFunction.LoneDefinition ∧ callingFunction.LoneDefinition ∧
      q.occursIn (.other none [outer, shadowingFunction]) = false ∧
      q.occursIn (.other none [outer, shadowingFunction, callingFunction]) = true ∧
      q.occursIn (.other none [outer, callingFunction, shadowingFunction]) = true := by
  intro q outer
  have hshadowing : shadowingFunction.LoneDefinition := by decide
  have hcalling : callingFunction.LoneDefinition := by decide
  have hfirst : q.occursIn (.other none [outer, shadowingFunction]) = false := by decide
  have hsecond : q.occursIn (.other none [outer, callingFunction]) = true := by decide
  obtain ⟨hsplit, -⟩ := occursIn_sibling_functions q none [outer] [callingFunction] hshadowing
    hshadowing hcalling
  obtain ⟨-, hswap⟩ := occursIn_sibling_functions q none [outer] [] hshadowing hshadowing hcalling
  have hboth : q.occursIn (.other none [outer, shadowingFunction, callingFunction]) = true :=
    hsplit.trans (by rw [List.singleton_append, List.singleton_append, hfirst, hsecond]; rfl)
  exact ⟨hshadowing, hcalling, hfirst, hboth, hswap.symm.trans hboth⟩

end Query

end CallAudit
