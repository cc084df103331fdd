import CallAudit.Check.Suppression
import CallAudit.Summary.Toon

/-!
# Summaries

What a command tells its user: the outcomes of a suite of checks, or the outcome of a single search.
A summary can be rendered as a table for the eye, or as a value in one of two notations.

## Main definitions

* `Format`: the notations.
* `Summary.Checks`: the outcomes of checks and their counts.
* `Summary.Detection`: the outcome of a search.
* `render`: the text of either in a format.
-/

namespace CallAudit

/-- The notations in which a summary can be rendered. -/
inductive Format where
  | table
  | json
  | toon
  deriving DecidableEq, Repr

namespace Format

/-- The formats by name. -/
def options : List (String × Format) := [("table", .table), ("json", .json), ("toon", .toon)]

/-- The name of a format. -/
def display : Format → String
  | .table => "table"
  | .json => "json"
  | .toon => "toon"

/-- A text in a format, of a table or of a value. -/
def render (f : Format) (table : String) (value : Json) : String :=
  match f with
  | .table => table
  | .json => value.pretty
  | .toon => Toon.encode value

end Format

/-- A number in a text. -/
def countText (n : Nat) : String := String.ofList (Nat.toDigits 10 n)

/-- Lines as one text. -/
def joinLines (lines : List String) : String := "\n".intercalate lines

namespace Summary

/-- The outcomes of checks on a tree, with their counts. -/
structure Checks where
  ast : String
  checks : List Reported
  passed : Nat
  failed : Nat
  suppressed : Nat
  deriving DecidableEq, Repr

namespace Checks

/-- The summary of reported outcomes. -/
def ofReported (ast : String) (checks : List Reported) : Checks where
  ast := ast
  checks := checks
  passed := checks.countP Reported.passed
  failed := checks.countP Reported.failed
  suppressed := checks.countP Reported.suppressed

/-- Whether no outcome counts as a failure. -/
def succeeded (s : Checks) : Bool := s.failed == 0

/-- The value of a summary. -/
def json (s : Checks) : Json :=
  .object [("ast", .string s.ast), ("checks", .array (s.checks.map Reported.json)),
    ("passed", .ofNat s.passed), ("failed", .ofNat s.failed), ("suppressed", .ofNat s.suppressed)]

/-- The word for the state of an outcome. -/
def status (r : Reported) : String :=
  if r.suppressed then "SKIP"
  else
    match r.outcome.verdict with
    | .pass => "PASS"
    | .fail => "FAIL"

/-- The line of an outcome. -/
def statusLine (r : Reported) : String :=
  let remark := r.outcome.remark
  "  " ++ status r ++ "  " ++ remark.name ++ " [" ++ remark.category.display ++ "]" ++
    (if remark.description.isEmpty then "" else " " ++ remark.description)

/-- The lines of an outcome: a failure that counts shows its comment, if it has one. -/
def outcomeLines (r : Reported) : List String :=
  if r.failed && !r.outcome.remark.comment.isEmpty then
    [statusLine r, "        comment: " ++ r.outcome.remark.comment]
  else [statusLine r]

/-- The line of the counts. -/
def countLine (s : Checks) : String :=
  countText s.passed ++ " passed, " ++ countText s.failed ++ " failed, " ++
    countText s.suppressed ++ " suppressed"

/-- The lines of the table. -/
def lines (s : Checks) : List String :=
  if s.checks.isEmpty then ["Checks: " ++ s.ast, "", "No checks configured."]
  else ["Checks: " ++ s.ast, ""] ++ s.checks.flatMap outcomeLines ++ ["", s.countLine]

/-- The table. -/
def table (s : Checks) : String := joinLines s.lines

/-- The summary in a format. -/
def render (s : Checks) (f : Format) : String := f.render s.table s.json

end Checks

/-- The outcome of a search in a tree. -/
structure Detection where
  ast : String
  called : String
  caller : Option String
  expected : Bool
  found : Bool
  verdict : Verdict
  deriving DecidableEq, Repr

namespace Detection

/-- Whether the tree is as it should be. -/
def succeeded (s : Detection) : Bool := s.verdict == .pass

/-- The value of a summary. -/
def json (s : Detection) : Json :=
  .object ([("ast", .string s.ast), ("called", .string s.called)] ++
    optionalMember "calling" .string s.caller ++
    [("should_call", .bool s.expected), ("found", .bool s.found),
      ("verdict", .string s.verdict.display)])

/-- What was searched for. -/
def subject (s : Detection) : String :=
  match s.caller with
  | some caller => s.called ++ " (inside " ++ caller ++ ")"
  | none => s.called

/-- The lines of the table. -/
def lines (s : Detection) : List String :=
  ["Detect: " ++ s.subject,
    "",
    "  AST:      " ++ s.ast,
    "  Expected: " ++ (if s.expected then "present" else "absent"),
    "  Found:    " ++ (if s.found then "yes" else "no"),
    "  Verdict:  " ++ (match s.verdict with
      | .pass => "PASS"
      | .fail => "FAIL")]

/-- The table. -/
def table (s : Detection) : String := joinLines s.lines

/-- The summary in a format. -/
def render (s : Detection) (f : Format) : String := f.render s.table s.json

end Detection

end Summary

end CallAudit
