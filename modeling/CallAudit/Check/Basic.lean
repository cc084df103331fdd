import CallAudit.Search.Walk
import CallAudit.Tree.Writer

/-!
# Checks

A check says which call a tree should hold, or should not hold. Its outcome says whether the call is
there and whether that is as it should be, and carries the remark that goes with the check.

## Main definitions

* `Verdict`, `Category`, `Condition`: the parts of a remark.
* `Check`: a query with what is expected of it and a remark.
* `Check.run`: the outcome of a check on a tree.
* `Check.json`, `Outcome.json`: their values.
-/

namespace CallAudit

/-- Whether a tree is as a check wants it. -/
inductive Verdict where
  | pass
  | fail
  deriving DecidableEq, Repr

namespace Verdict

/-- A check passes if the call is found exactly where it is expected. -/
def judge (found expected : Bool) : Verdict := if found = expected then .pass else .fail

/-- The written name of a verdict. -/
def display : Verdict → String
  | .pass => "pass"
  | .fail => "fail"

end Verdict

/-- How much a remark matters. -/
inductive Category where
  | essential
  | actionable
  | informative
  | celebratory
  deriving DecidableEq, Repr

/-- The written name of a category. -/
def Category.display : Category → String
  | .essential => "essential"
  | .actionable => "actionable"
  | .informative => "informative"
  | .celebratory => "celebratory"

/-- The condition that another check has a verdict. -/
structure Condition where
  check : String
  verdict : Verdict
  deriving DecidableEq, Repr

/-- What a check says about itself. -/
structure Remark where
  name : String
  description : String
  comment : String
  category : Category
  /-- When the outcome is not to be counted. -/
  suppressIf : Option Condition
  deriving DecidableEq, Repr

/-- A check: calls of `called`, inside `caller` if it is given, should occur if `expected` holds and
should not occur otherwise. -/
structure Check extends Remark where
  called : Option Signature
  caller : Option Signature
  expected : Bool
  deriving DecidableEq, Repr

/-- The outcome of a check. -/
structure Outcome where
  verdict : Verdict
  found : Bool
  remark : Remark
  deriving DecidableEq, Repr

namespace Check

/-- The query of a check. -/
def query (c : Check) : Query := ⟨c.called, c.caller⟩

/-- The outcome of a check on a tree. -/
def run (c : Check) (t : Tree) : Outcome :=
  let found := c.query.occursIn t
  ⟨.judge found c.expected, found, c.toRemark⟩

end Check

/-- The value of a condition. -/
def Condition.json (c : Condition) : Json :=
  .object [("check", .string c.check), ("verdict", .string c.verdict.display)]

/-- The value of a remark. -/
def Remark.json (r : Remark) : Json :=
  .object ([("name", .string r.name), ("description", .string r.description),
    ("comment", .string r.comment), ("category", .string r.category.display)] ++
    optionalMember "suppress_if" Condition.json r.suppressIf)

/-- The value of a signature that may be absent. -/
def Signature.optionJson : Option Signature → Json
  | none => .null
  | some sig => .string sig.display

/-- The value of a check. -/
def Check.json (c : Check) : Json :=
  .object ([("name", .string c.name), ("description", .string c.description),
    ("comment", .string c.comment), ("called", Signature.optionJson c.called),
    ("calling", Signature.optionJson c.caller), ("should_call", .bool c.expected),
    ("category", .string c.category.display)] ++
    optionalMember "suppress_if" Condition.json c.suppressIf)

/-- The members of the value of an outcome. -/
def Outcome.members (o : Outcome) : List (String × Json) :=
  [("verdict", .string o.verdict.display), ("found", .bool o.found), ("report", o.remark.json)]

/-- The value of an outcome. -/
def Outcome.json (o : Outcome) : Json := .object o.members

end CallAudit
