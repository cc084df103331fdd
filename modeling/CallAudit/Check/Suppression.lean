import CallAudit.Check.Basic

/-!
# Suppressed outcomes

An outcome is not counted if its condition holds: the check that the condition names has the verdict
that it names. Of several checks with one name the last one decides; a name that no check has decides
nothing.

## Main definitions

* `Reported`: an outcome, and whether it is suppressed.
* `Outcome.suppress`: all outcomes with their conditions decided.
* `Check.runAll`: the reported outcomes of checks on a tree.
-/

namespace CallAudit

/-- An outcome, and whether it is suppressed. -/
structure Reported where
  outcome : Outcome
  suppressed : Bool
  deriving DecidableEq, Repr

namespace Reported

/-- Whether the outcome counts as a failure. -/
def failed (r : Reported) : Bool := !r.suppressed && r.outcome.verdict == .fail

/-- Whether the outcome counts as passed. -/
def passed (r : Reported) : Bool := !r.suppressed && r.outcome.verdict == .pass

/-- The value of a reported outcome. -/
def json (r : Reported) : Json :=
  .object (r.outcome.members ++ [("suppressed", .bool r.suppressed)])

end Reported

namespace Outcome

/-- The verdict of the last outcome with a name. -/
def verdictOf (outcomes : List Outcome) (name : String) : Option Verdict :=
  (outcomes.reverse.find? fun o => o.remark.name == name).map Outcome.verdict

/-- Whether the condition of an outcome holds among the given outcomes. -/
def isSuppressed (outcomes : List Outcome) (o : Outcome) : Bool :=
  match o.remark.suppressIf with
  | some condition => verdictOf outcomes condition.check == some condition.verdict
  | none => false

/-- The outcomes, each with its condition decided. -/
def suppress (outcomes : List Outcome) : List Reported :=
  outcomes.map fun o => ⟨o, isSuppressed outcomes o⟩

end Outcome

/-- The reported outcomes of checks on a tree, in order. -/
def Check.runAll (checks : List Check) (t : Tree) : List Reported :=
  Outcome.suppress (checks.map fun c => c.run t)

end CallAudit
