import CallAudit.Proofs.Table
import CallAudit.Search.Walk

/-!
# What matching a call depends on

A call is matched by looking up keys and asking whether there is a binding with some property. The
answer depends on a scope through its look-ups alone, not on the tables they come from, and nothing
but a call is ever matched. The function around a call is compared by its name alone.

## Main statements

* `Scope.aliasReaches_eq_any`, `Scope.admits_eq_any`, `Scope.binds_eq_any`: what is asked of a
  binding.
* `Tree.isCallTo_congr`: scopes with the same look-ups match the same calls.
* `encloses_iff`: what makes a signature the one of the function around a place.
* `Query.hits_eq_false`: only calls are searched for.
-/

namespace CallAudit

namespace Scope

theorem aliasReaches_eq_any (s : Scope) (written target : ModuleName) :
    s.aliasReaches written target =
      (s.find? written.outermost).any fun binding => binding.path.extend written.rest == target := by
  rw [aliasReaches]
  cases s.find? written.outermost with
  | none => rfl
  | some binding => rfl

theorem admits_eq_any (s : Scope) (target : ModuleName) (f : FunctionRef) :
    s.admits target f = (s.find? target).any fun binding => binding.filter.admits f := by
  rw [admits]
  cases s.find? target with
  | none => rfl
  | some binding => rfl

theorem binds_eq_any (s : Scope) (key : ModuleName) :
    s.binds key = (s.find? key).any fun _ => true := by
  rw [binds_eq_isSome_find?]
  cases s.find? key with
  | none => rfl
  | some binding => rfl

variable {s s' : Scope}

theorem aliasReaches_congr (h : ∀ key, s.find? key = s'.find? key) (written target : ModuleName) :
    s.aliasReaches written target = s'.aliasReaches written target := by
  rw [aliasReaches, aliasReaches, h]

theorem importReaches_congr (h : ∀ key, s.find? key = s'.find? key) (written target : ModuleName) :
    s.importReaches written target = s'.importReaches written target := by
  simp only [importReaches, binds_eq_isSome_find?, h]

theorem admits_congr (h : ∀ key, s.find? key = s'.find? key) (target : ModuleName)
    (f : FunctionRef) : s.admits target f = s'.admits target f := by
  rw [admits, admits, h]

end Scope

theorem Signature.matchesCallee_congr {s s' : Scope} (h : ∀ key, s.find? key = s'.find? key)
    (sig : Signature) (callee : Callee) (arity : Nat) :
    sig.matchesCallee callee arity s = sig.matchesCallee callee arity s' := by
  simp only [matchesCallee, Scope.admits_congr h, Scope.aliasReaches_congr h,
    Scope.importReaches_congr h]

/-- Scopes with the same look-ups match the same trees. -/
theorem Tree.isCallTo_congr {s s' : Scope} (h : ∀ key, s.find? key = s'.find? key) (t : Tree)
    (sig : Option Signature) : t.isCallTo sig s = t.isCallTo sig s' := by
  cases t with
  | call callee args =>
    cases sig with
    | none => rfl
    | some sig => exact Signature.matchesCallee_congr h sig callee args.length
  | _ => rfl

theorem Tree.isCallTo_eq_false {t : Tree} (h : t.isCall = false) (sig : Option Signature)
    (scope : Scope) : t.isCallTo sig scope = false := by
  cases t with
  | call callee args => simp [isCall] at h
  | _ => rfl

/-- A signature encloses a place exactly if it has the name of the function around it. -/
theorem encloses_iff {current : Option String} {sig : Signature} :
    encloses current (some sig) = true ↔
      ∃ name, current = some name ∧ sig.name = .exactly name := by
  obtain ⟨module?, pattern⟩ := sig
  cases current with
  | none => simp [encloses]
  | some name =>
    cases pattern with
    | any => simp [encloses, NamePattern.isName]
    | exactly expected => simp [encloses, NamePattern.isName]

namespace Query

theorem hits_iff {q : Query} {t : Tree} {current : Option String} {scope : Scope} :
    q.hits t current scope = true ↔
      t.isCallTo q.called scope = true ∧ encloses current q.called = false ∧
        (q.caller = none ∨ encloses current q.caller = true) := by
  simp [hits, and_assoc]

theorem hits_eq_false {t : Tree} (h : t.isCall = false) (q : Query) (current : Option String)
    (scope : Scope) : q.hits t current scope = false := by
  rw [hits, Tree.isCallTo_eq_false h]
  rfl

end Query

end CallAudit
