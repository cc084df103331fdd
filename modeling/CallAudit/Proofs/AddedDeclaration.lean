import CallAudit.Proofs.Simulation

/-!
# One more declaration at the top

A declaration in front of some trees changes what is in scope in all of them. It can make a call
match that did not, but never the other way round: with and without it, the walks are in the same
function and have the same table of that function at every point, and whatever the table of the
module binds without the declaration it binds to the same with it. Later declarations keep this, as
they write over both tables alike. Matching asks what is bound, never what is not bound.

## Main definitions

* `Table.Extends`, `Scope.Extends`: all that is there, and maybe more.

## Main statements

* `Scope.Extends.isCallTo`: matching is monotone in the scope.
* `Query.extends_simulation`: a search with more in scope stays in step and finds more.
* `Query.occursIn_declare_cons`: one more declaration at the top loses nothing.
-/

namespace CallAudit

namespace Table

variable {t u : Table}

/-- The table `u` has all bindings of `t`. -/
def Extends (u t : Table) : Prop :=
  ∀ key binding, t.find? key = some binding → u.find? key = some binding

theorem extends_empty (u : Table) : u.Extends {} := by
  intro key binding h
  cases h

theorem Extends.insertAll (h : u.Extends t) (entries : List (ModuleName × Binding)) :
    (u.insertAll entries).Extends (t.insertAll entries) := by
  intro key binding hfind
  rw [find?_insertAll, Option.or_eq_some_iff] at hfind
  rw [find?_insertAll, Option.or_eq_some_iff]
  rcases hfind with hnew | ⟨hnone, hold⟩
  · exact Or.inl hnew
  · exact Or.inr ⟨hnone, h key binding hold⟩

end Table

/-- The scope `u` has the same table of the function as `s`, and all bindings of the module that `s`
has. With more in the table of the function, bindings of the module could be hidden. -/
structure Scope.Extends (u s : Scope) : Prop where
  inner : u.inner = s.inner
  outer : u.outer.Extends s.outer

namespace Scope.Extends

variable {s u : Scope}

theorem find? (h : u.Extends s) {key : ModuleName} {binding : Binding}
    (hfind : s.find? key = some binding) : u.find? key = some binding := by
  rw [Scope.find?, Option.or_eq_some_iff] at hfind
  rw [Scope.find?, h.inner, Option.or_eq_some_iff]
  rcases hfind with hinner | ⟨hnone, houter⟩
  · exact Or.inl hinner
  · exact Or.inr ⟨hnone, h.outer key binding houter⟩

theorem declare (h : u.Extends s) (t : Tree) (inFunction : Bool) :
    (u.declare t inFunction).Extends (s.declare t inFunction) := by
  cases inFunction with
  | false => exact ⟨h.inner, h.outer.insertAll t.entries⟩
  | true =>
    refine ⟨?_, h.outer⟩
    change u.inner.insertAll t.entries = s.inner.insertAll t.entries
    rw [h.inner]

theorem endFunction (h : u.Extends s) : u.endFunction.Extends s.endFunction := ⟨rfl, h.outer⟩

/-- A binding with some property that is found in a scope is found in one that has more in it. -/
theorem any_find? (h : u.Extends s) {key : ModuleName} {P : Binding → Bool}
    (hs : (s.find? key).any P = true) : (u.find? key).any P = true := by
  obtain ⟨binding, hfind, hP⟩ := (Option.any_eq_true P (s.find? key)).mp hs
  rw [h.find? hfind]
  exact hP

theorem importReaches (h : u.Extends s) {written target : ModuleName}
    (hs : s.importReaches written target = true) : u.importReaches written target = true := by
  rw [Scope.importReaches] at hs ⊢
  cases hrest : target.without written with
  | none => simp [hrest] at hs
  | some remainder =>
    rw [hrest] at hs
    simp only [binds_eq_any] at hs ⊢
    exact h.any_find? hs

theorem matchesCallee (h : u.Extends s) {sig : Signature} {callee : Callee} {arity : Nat}
    (hs : sig.matchesCallee callee arity s = true) : sig.matchesCallee callee arity u = true := by
  obtain ⟨module?, pattern⟩ := sig
  cases module? with
  | none =>
    -- Without a module the scope is not looked at.
    cases callee <;> exact hs
  | some target =>
    cases callee with
    | bare name =>
      simp only [Signature.matchesCallee, Bool.and_eq_true, admits_eq_any] at hs ⊢
      exact ⟨hs.1, h.any_find? hs.2⟩
    | ofAtom atom name => exact hs
    | ofModule written name =>
      simp only [Signature.matchesCallee, Bool.and_eq_true, Bool.or_eq_true,
        aliasReaches_eq_any] at hs ⊢
      obtain ⟨hname, (hsame | halias) | himport⟩ := hs
      · exact ⟨hname, Or.inl (Or.inl hsame)⟩
      · exact ⟨hname, Or.inl (Or.inr (h.any_find? halias))⟩
      · exact ⟨hname, Or.inr (h.importReaches himport)⟩

/-- What matches in a scope matches in one that has more in it. -/
theorem isCallTo (h : u.Extends s) {t : Tree} {sig : Option Signature}
    (hs : t.isCallTo sig s = true) : t.isCallTo sig u = true := by
  cases t with
  | call callee args =>
    cases sig with
    | none => exact hs
    | some sig => exact h.matchesCallee hs
  | _ => exact hs

theorem hits (h : u.Extends s) {q : Query} {t : Tree} {current : Option String}
    (hs : q.hits t current s = true) : q.hits t current u = true := by
  rw [Query.hits_iff] at hs ⊢
  exact ⟨h.isCallTo hs.1, hs.2⟩

end Scope.Extends

namespace Query

/-- Two searches for the same in the same trees, the second of which has more in scope, stay in step:
they are in the same function, and what the first finds the second finds. -/
theorem extends_simulation (q : Query) :
    Simulation q q Eq Eq (fun s u => u.Extends s) (fun a b => a = true → b = true) where
  children := by
    rintro t _ rfl
    exact List.forall₂_refl _
  defines := by
    rintro t _ rfl
    rfl
  outside := rfl
  current := by
    rintro t _ c _ rfl rfl
    rfl
  declare := by
    rintro t _ c _ s u rfl rfl hs
    exact hs.declare t c.isSome
  endFunction hs := hs.endFunction
  hits := by
    rintro t _ c _ s u rfl rfl hs
    exact hs.hits
  either := by
    intro a a' b b' ha hb
    rw [Bool.or_eq_true, Bool.or_eq_true]
    exact Or.imp ha hb

/-- What a search finds in some trees, it finds with one more declaration in front of them. -/
theorem occursIn_declare_cons (q : Query) (form : Option String) (d : Declaration) (ts : List Tree)
    (h : q.occursIn (.other form ts) = true) : q.occursIn (.other form (.declare d :: ts)) = true := by
  rw [occursIn_other] at h
  rw [occursIn_other, walkAll_cons]
  have hstart : ({} : Search).Related Eq (fun s u => u.Extends s) (fun a b => a = true → b = true)
      (q.walk (.declare d) {}) := by
    refine ⟨rfl, ⟨rfl, Table.extends_empty _⟩, ?_⟩
    intro hf
    cases hf
  have hsame : List.Forall₂ Eq ts ts := List.forall₂_refl ts
  exact ((extends_simulation q).walkAll hsame hstart).found h

/-- An alias, and a function that calls through it. -/
def aliasedCall : List Tree := [
  .declare (.aliasing ⟨"App", ["Repo"]⟩ none []),
  .define .public "run" [] [.call (.ofModule ⟨"Repo", []⟩ "all") []]]

/-- The call is found too if an alias in front binds the same name to something else. -/
theorem occursIn_declare_aliasedCall :
    let q : Query := ⟨some (.qualified ⟨"App", ["Repo"]⟩ "all"), some (.unqualified "run")⟩
    q.occursIn (.other none aliasedCall) = true ∧
      q.occursIn (.other none
        (.declare (.aliasing ⟨"Other", []⟩ (some "Repo") []) :: aliasedCall)) = true := by
  intro q
  have hfound : q.occursIn (.other none aliasedCall) = true := by decide
  exact ⟨hfound, occursIn_declare_cons q none _ aliasedCall hfound⟩

end Query

end CallAudit
