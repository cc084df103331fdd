import CallAudit.Command.Run
import CallAudit.Proofs.CheckNames
import CallAudit.Proofs.Suppression

/-!
# The end of a run of checks

A run of checks fails if its suite cannot be loaded, or else if its tree cannot. Otherwise it writes
a summary, and its code is zero exactly if every check that is not waived finds its call where it is
expected and nowhere else.

## Main statements

* `Check.succeeded_runAll_iff`: when a summary of checks is a success.
* `execute_check_cases`: the three ends of a run of checks.
* `execute_check`: the code of a run and what it writes.
-/

namespace CallAudit

namespace Check

theorem succeeded_runAll_iff {checks : List Check} (h : (checks.map fun c => c.name).Nodup)
    (ast : String) (t : Tree) :
    (Summary.Checks.ofReported ast (runAll checks t)).succeeded = true ↔
      ∀ c ∈ checks, c.query.occursIn t = c.expected ∨ c.Waived checks t := by
  have hreported : ∀ c : Check,
      (Reported.mk (c.run t) (Outcome.isSuppressed (checks.map fun d => d.run t) (c.run t))).failed
        = false ↔ c.query.occursIn t = c.expected ∨ c.Waived checks t := by
    intro c
    rw [Reported.failed_eq_false_iff, isSuppressed_run_iff h]
    have hverdict : (c.run t).verdict = .pass ↔ c.query.occursIn t = c.expected :=
      Verdict.judge_eq_iff.trans (by simp)
    rw [hverdict]
  rw [Summary.Checks.succeeded_ofReported_iff, runAll, Outcome.suppress]
  simp only [List.forall_mem_map, hreported]

end Check

theorem Suite.load_of_text {files : Files} {path content : String}
    (h : files path = .text content) :
    Suite.load files path = Suite.ofText path content := by
  simp [Suite.load, h, FileContent.isPresent, FileContent.read]

theorem Tree.load_of_text {files : Files} {path content : String} (h : files path = .text content) :
    Tree.load files path = (Tree.ofText content).mapError .invalid := by
  simp [Tree.load, h, FileContent.read, Tree.parse]

variable {files : Files} {arguments : List String} {ast : String} {given : Option String}
  {format : Format}

/-- A run of checks ends without a suite, without a tree, or with a summary. -/
theorem execute_check_cases
    (hcommand : Command.parse files arguments = .ok ⟨.check ast given, format⟩) :
    (∃ e, Suite.load files (Suite.path given) = .error e ∧
      execute files arguments = ⟨1, "", "Error: " ++ e.message ++ "\n"⟩) ∨
    (∃ suite e, Suite.load files (Suite.path given) = .ok suite ∧ Tree.load files ast = .error e ∧
      execute files arguments = ⟨1, "", "Error: " ++ e.message ++ "\n"⟩) ∨
    ∃ suite tree, Suite.load files (Suite.path given) = .ok suite ∧ Tree.load files ast = .ok tree ∧
      let summary := Summary.Checks.ofReported ast (Check.runAll suite.checks tree)
      execute files arguments =
        ⟨if summary.succeeded then 0 else 1, summary.render format ++ "\n", ""⟩ := by
  have hrun : execute files arguments =
      .ofResult (Command.run files format (.check ast given)) := by rw [execute, hcommand]
  rw [hrun, Command.run, Command.runCheck]
  cases hsuite : Suite.load files (Suite.path given) with
  | error e => exact Or.inl ⟨e, rfl, rfl⟩
  | ok suite =>
    cases htree : Tree.load files ast with
    | error e => exact Or.inr (Or.inl ⟨suite, e, rfl, rfl, rfl⟩)
    | ok tree => exact Or.inr (Or.inr ⟨suite, tree, rfl, rfl, rfl⟩)

namespace Command

/-- An option with its value behind it: what was pending is looked at, and then the value is. -/
theorem Line.scan_value {level : Level} {s s' : State} {opt : Opt} {argument name value : String}
    (hargument : Shape.of argument = .long name none) (hopt : level.long? name = some opt)
    (hswitch : opt.isSwitch = false) (hvalue : Shape.of value = .word) (hs : s.ended = false)
    (hsettle : s.settle files = .ok s') (hs' : s'.ended = false) (rest : List String) :
    scan files level s (argument :: value :: rest) =
      scan files level { s' with pending := some (opt, some value) } rest := by
  have htake : s.takeLong files level name none = .ok { s' with pending := some (opt, none) } := by
    simp [State.takeLong, hopt, hswitch, State.take, hsettle, bind, Except.bind]
  simp [scan, hs, hs', hargument, htake, hvalue, State.isWaiting, State.supply, bind, Except.bind]

theorem parse_check (format : Format) {ast config : String} (hast : Line.Shape.of ast = .word)
    (hconfig : Line.Shape.of config = .word) (hne : config ≠ "")
    (hfile : (files ast).isPresent = true) :
    parse files ["check", "--ast", ast, "--config", config, "--format", format.display] =
      .ok ⟨.check ast (some config), format⟩ := by
  have hformat : Line.Shape.of format.display = .word := by cases format <;> rfl
  have hlookup : Format.options.lookup format.display = some format := by cases format <;> rfl
  have hoptions : Line.options files .check
      ["--ast", ast, "--config", config, "--format", format.display] =
        .ok { ast := some ast, config := some config, format := some format } := by
    have hsettle₁ : Line.State.settle files { pending := some (.ast, some ast) } =
        .ok { values := { ast := some ast } } := by
      simp [Line.State.settle, Values.store, Values.has, Values.put, hfile, Except.map]
    have hsettle₂ : Line.State.settle files
        { values := { ast := some ast }, pending := some (.config, some config) } =
          .ok { values := { ast := some ast, config := some config } } := by
      simp [Line.State.settle, Values.store, Values.has, Values.put, hne, Except.map]
    rw [Line.options, Line.scan_value rfl rfl rfl hast rfl rfl rfl,
      Line.scan_value rfl rfl rfl hconfig rfl hsettle₁ rfl,
      Line.scan_value rfl rfl rfl hformat rfl hsettle₂ rfl]
    simp [Line.scan, Line.State.settle, Values.store, Values.has, Values.put, hlookup, Except.map,
      bind, Except.bind]
  have hword : Line.Shape.of "check" = .word := rfl
  simp [parse, Line.scan, hword, Line.command, Line.State.isWaiting, hoptions, Values.check,
    Line.State.settle, bind, Except.bind, Except.map]

end Command

/-- A tree with a call of `f`. -/
def callingText : String :=
  r#"{"kind":"call","callee":{"type":"local","name":"f"}}"#

/-- A suite that wants a call of `f`, and one of `g` unless there is one of `f`. -/
def waivingText : String :=
  r#"{"checks":[{"name":"a","called":"f"},"# ++
    r#"{"name":"b","called":"g","suppress_if":{"check":"a","verdict":"pass"}}]}"#

/-- A suite with two checks of one name. -/
def repeatingText : String := r#"{"checks":[{"name":"a","called":"f"},{"name":"a"}]}"#

/-- The tree beside a suite. -/
def filesWith (suiteText : String) : Files := fun path =>
  if path = "ast.json" then .text callingText
  else if path = "config.json" then .text suiteText
  else .missing

def wantedCheck : Check where
  name := "a"
  description := ""
  comment := ""
  category := .actionable
  suppressIf := none
  called := some (.unqualified "f")
  caller := none
  expected := true

def waivedCheck : Check :=
  { wantedCheck with name := "b", suppressIf := some ⟨"a", .pass⟩,
                     called := some (.unqualified "g") }

end CallAudit
