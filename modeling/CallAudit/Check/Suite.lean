import CallAudit.Check.Basic
import CallAudit.Reading.Stream

/-!
# Suites of checks

A suite is a list of checks with distinct names, kept in a text. The text is read in order, so the
first fault in it decides, wherever it is.

## Main definitions

* `Suite`: the checks of a text.
* `Check.ofText`: a single check from a text.
* `Suite.ofText`: a suite from a text of some origin, or why it is none.
* `Suite.ofInlineText`: a suite from a text that stands in no file.
-/

namespace CallAudit

/-- A list of checks. -/
structure Suite where
  checks : List Check
  deriving DecidableEq, Repr

namespace Suite

open Reading

/-- The file that is read when no other is given. -/
def defaultPath : String := ".call_check.json"

/-- A suite to start from. -/
def sample : String := r#"{
  "checks": [
    {
      "name": "uses_helper",
      "description": "run/1 delegates to helper/1",
      "comment": "elixir.example.use_helper",
      "called": "helper",
      "calling": "run",
      "should_call": true,
      "category": "essential"
    }
  ]
}"#

/-- Why there is no suite. -/
inductive Error where
  | notFound (path : String)
  | unreadable (path : String) (cause : String)
  | invalid (origin : String) (fault : Fault)
  | duplicate (origin : String) (name : String)
  deriving DecidableEq, Repr

/-- The wording of an error. -/
def Error.message : Error → String
  | .notFound path => "Configuration file not found: " ++ path ++ "\n\nExample:\n" ++ sample
  | .unreadable path cause => "Failed to read " ++ path ++ ": " ++ cause
  | .invalid origin fault => "Invalid JSON in " ++ origin ++ ": " ++ fault.message
  | .duplicate origin name => "Duplicate check name '" ++ name ++ "' in " ++ origin

/-- The verdicts by name. -/
def verdicts : List (String × Verdict) := [("pass", .pass), ("fail", .fail)]

/-- The categories by name. -/
def categories : List (String × Category) :=
  [("essential", .essential), ("actionable", .actionable), ("informative", .informative),
    ("celebratory", .celebratory)]

/-- A condition. -/
def condition : Record Json.Document (Option String × Option Verdict) Condition where
  title := "struct SuppressCondition"
  blank := (none, none)
  fields :=
    [("check", fun d draft => d.asText.map fun check => (some check, draft.2)),
      ("verdict", fun d draft => (d.asChoice verdicts).map fun verdict => (draft.1, some verdict))]
  finish lack
    | (none, _) => .error (lack 0 "check")
    | (_, none) => .error (lack 1 "verdict")
    | (some check, some verdict) => .ok ⟨check, verdict⟩

/-- What is known of a check while it is read; all but the name has a default. -/
structure CheckDraft where
  name : Option String := none
  description : String := ""
  comment : String := ""
  called : Option Signature := none
  caller : Option Signature := none
  expected : Bool := true
  category : Category := .actionable
  suppressIf : Option Condition := none

/-- A check. -/
def check : Record Json.Document CheckDraft Check where
  title := "struct CheckConfig"
  blank := {}
  fields :=
    [("name", fun d draft => d.asText.map fun name => { draft with name := some name }),
      ("description", fun d draft => d.asText.map fun text => { draft with description := text }),
      ("comment", fun d draft => d.asText.map fun text => { draft with comment := text }),
      ("called", fun d draft =>
        (d.asOption Json.Document.asSignature).map fun sig => { draft with called := sig }),
      ("calling", fun d draft =>
        (d.asOption Json.Document.asSignature).map fun sig => { draft with caller := sig }),
      ("should_call", fun d draft => d.asBoolean.map fun b => { draft with expected := b }),
      ("category", fun d draft =>
        (d.asChoice categories).map fun category => { draft with category := category }),
      ("suppress_if", fun d draft =>
        (d.asOption fun d => d.asRecord condition).map fun c => { draft with suppressIf := c })]
  finish lack draft :=
    match draft.name with
    | none => .error (lack 0 "name")
    | some name =>
      .ok { name, description := draft.description, comment := draft.comment,
            category := draft.category, suppressIf := draft.suppressIf, called := draft.called,
            caller := draft.caller, expected := draft.expected }

/-- The checks of a suite. -/
def suite : Record Json.Document (List Check) Suite where
  title := "struct ConfigFile"
  blank := []
  fields := [("checks", fun d _ => d.asList fun item => item.asRecord check)]
  finish _ checks := .ok ⟨checks⟩

/-- The first name that stands in a list for the second time, where the names in `seen` stand
before the list. -/
def firstRepeated (seen : List String) : List String → Option String
  | [] => none
  | name :: names => if seen.contains name then some name else firstRepeated (name :: seen) names

/-- The suite that a text holds, before its names are compared. -/
def decode (s : String) : Except Fault Suite := Reading.ofText (fun d => d.asRecord suite) s

/-- The suite that a text of some origin holds. -/
def ofText (origin : String) (s : String) : Except Error Suite :=
  match decode s with
  | .error fault => .error (.invalid origin fault)
  | .ok suite =>
    match firstRepeated [] (suite.checks.map fun c => c.name) with
    | some name => .error (.duplicate origin name)
    | none => .ok suite

/-- The suite that a text holds which stands in no file. -/
def ofInlineText (s : String) : Except Error Suite := ofText "<inline>" s

/-- The value of a suite. -/
def json (s : Suite) : Json := .object [("checks", .array (s.checks.map Check.json))]

/-- The compact text of a suite. -/
def text (s : Suite) : String := s.json.compact

end Suite

/-- The check that a text holds. -/
def Check.ofText (s : String) : Except Reading.Fault Check :=
  Reading.ofText (fun d => d.asRecord Suite.check) s

end CallAudit
