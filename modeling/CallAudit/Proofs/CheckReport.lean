import Mathlib.Data.List.FinRange
import CallAudit.Proofs.SuiteText
import CallAudit.Summary.Basic

/-!
# Reports of the checks in a suite

The outcome of a check is its own, and whether it is suppressed depends only on which checks there
are, since no two of them have the same name. So the checks of a suite may stand in any order. Among
the checks that decide on a condition is the check that has it: a check can suppress itself.

## Main definitions

* `Check.Meets`: a check is the one that a condition names, and has the verdict that it names.

## Main statements

* `Check.runAll_of_perm`: what a check reports, whatever the order of all checks.
* `Check.runAll_rearranged`: a suite in another order.
* `Check.suppressed_runAll`: which checks of a suite are suppressed, and by which.
-/

namespace CallAudit

namespace Check

/-- The check has the name and the verdict of the condition. -/
def Meets (c : Check) (t : Tree) (condition : Condition) : Prop :=
  c.name = condition.check ∧ (c.run t).verdict = condition.verdict

instance (c : Check) (t : Tree) (condition : Condition) : Decidable (c.Meets t condition) :=
  inferInstanceAs (Decidable (_ ∧ _))

variable {checks permuted : List Check}

theorem waived_iff {c : Check} {t : Tree} :
    c.Waived checks t ↔
      ∃ condition, c.suppressIf = some condition ∧ ∃ d ∈ checks, d.Meets t condition := by
  have hverdict (d : Check) (condition : Condition) :
      (condition.verdict = .pass ↔ d.query.occursIn t = d.expected) ↔
        (d.run t).verdict = condition.verdict := Verdict.judge_eq_iff.symm
  simp only [Waived, Meets, hverdict]

theorem runAll_eq_map (t : Tree) :
    runAll checks t = checks.map fun c =>
      ⟨c.run t, Outcome.isSuppressed (checks.map fun d => d.run t) (c.run t)⟩ := by
  rw [runAll, Outcome.suppress, List.map_map]
  rfl

/-! ### Another order -/

/-- A check asks which checks there are, and not where they stand. -/
theorem isSuppressed_run_of_perm (hnames : (checks.map fun c => c.name).Nodup)
    (hperm : permuted.Perm checks) (t : Tree) (c : Check) :
    Outcome.isSuppressed (permuted.map fun d => d.run t) (c.run t) =
      Outcome.isSuppressed (checks.map fun d => d.run t) (c.run t) := by
  have hpermuted : (permuted.map fun c => c.name).Nodup := (hperm.map _).nodup_iff.mpr hnames
  rw [Bool.eq_iff_iff, isSuppressed_run_iff hpermuted, isSuppressed_run_iff hnames, waived_iff,
    waived_iff]
  simp only [hperm.mem_iff]

theorem runAll_of_perm (hnames : (checks.map fun c => c.name).Nodup) (hperm : permuted.Perm checks)
    (t : Tree) :
    runAll permuted t = permuted.map fun c =>
      ⟨c.run t, Outcome.isSuppressed (checks.map fun d => d.run t) (c.run t)⟩ := by
  rw [runAll_eq_map]
  refine List.map_congr_left fun c _ => ?_
  rw [isSuppressed_run_of_perm hnames hperm]

theorem ofFn_perm (σ : Equiv.Perm (Fin checks.length)) :
    (List.ofFn fun i => checks.get (σ i)).Perm checks := by
  have h := σ.ofFn_comp_perm checks.get
  rwa [List.ofFn_get] at h

/-- The checks of a suite in any other order are a suite as well. Each of them has the same report
as before, and so the counts and the success of the whole are the same. -/
theorem runAll_rearranged {origin s : String} {suite : Suite}
    (h : Suite.ofText origin s = .ok suite) (σ : Equiv.Perm (Fin suite.checks.length)) (t : Tree)
    (ast : String) :
    let rearranged := List.ofFn fun i => suite.checks.get (σ i)
    let before := Summary.Checks.ofReported ast (runAll suite.checks t)
    let after := Summary.Checks.ofReported ast (runAll rearranged t)
    Suite.ofText origin (Suite.text ⟨rearranged⟩) = .ok ⟨rearranged⟩ ∧
      (runAll rearranged t).length = (runAll suite.checks t).length ∧
      (∀ i : Fin suite.checks.length,
        (runAll rearranged t)[i.val]? = (runAll suite.checks t)[(σ i).val]?) ∧
      after.passed = before.passed ∧ after.failed = before.failed ∧
      after.suppressed = before.suppressed ∧ after.succeeded = before.succeeded := by
  intro rearranged before after
  obtain ⟨hsignatures, hnames⟩ := Suite.legible_of_ofText h
  have hperm : rearranged.Perm suite.checks := ofFn_perm σ
  have hlegible : Suite.Legible ⟨rearranged⟩ :=
    ⟨fun c hc => hsignatures c (hperm.mem_iff.mp hc), (hperm.map _).nodup_iff.mpr hnames⟩
  -- With the names distinct, both lists of reports are images under one function of the check.
  have hafter := runAll_of_perm hnames hperm t
  have hbefore := runAll_of_perm hnames (List.Perm.refl suite.checks) t
  have hreports : (runAll rearranged t).Perm (runAll suite.checks t) := by
    rw [hafter, hbefore]
    exact hperm.map _
  have hfailed : after.failed = before.failed := hreports.countP_eq Reported.failed
  refine ⟨Suite.ofText_text_of_legible hlegible origin, hreports.length_eq, fun i => ?_,
    hreports.countP_eq _, hfailed, hreports.countP_eq _, ?_⟩
  · have hi : rearranged[i.val]? = suite.checks[(σ i).val]? := by simp [rearranged]
    rw [hafter, hbefore, List.getElem?_map, List.getElem?_map, hi]
  · rw [Summary.Checks.succeeded, Summary.Checks.succeeded, hfailed]

/-- The first check asks for the verdict of the second one, and the other way round. -/
def mutualText : String :=
  r#"{"checks":[{"name":"a","called":"f","suppress_if":{"check":"b","verdict":"pass"}},"# ++
    r#"{"name":"b","called":"g","suppress_if":{"check":"a","verdict":"pass"}}]}"#

def mutualSuite : Suite where
  checks :=
    [{ name := "a", description := "", comment := "", category := .actionable,
       suppressIf := some ⟨"b", .pass⟩, called := some (.unqualified "f"), caller := none,
       expected := true },
      { name := "b", description := "", comment := "", category := .actionable,
        suppressIf := some ⟨"a", .pass⟩, called := some (.unqualified "g"), caller := none,
        expected := true }]

theorem ofText_mutualText : Suite.ofText "<inline>" mutualText = .ok mutualSuite := by
  decide +kernel

theorem runAll_rearranged_mutual :
    let t := Tree.call (.bare "f") []
    let turned := mutualSuite.checks.reverse
    Suite.ofText "<inline>" mutualText = .ok mutualSuite ∧
      Suite.ofText "<inline>" (Suite.text ⟨turned⟩) = .ok ⟨turned⟩ ∧
      (runAll turned t)[0]? = (runAll mutualSuite.checks t)[1]? ∧
      (runAll turned t).map Reported.suppressed = [true, false] := by
  intro t turned
  let turn : Equiv.Perm (Fin mutualSuite.checks.length) := Equiv.swap (0 : Fin 2) (1 : Fin 2)
  have hturned : (List.ofFn fun i => mutualSuite.checks.get (turn i)) = turned := by decide
  obtain ⟨haccepted, -, hreports, -⟩ := runAll_rearranged ofText_mutualText turn t "ast.json"
  have hfirst := hreports (0 : Fin 2)
  rw [hturned] at haccepted hfirst
  exact ⟨ofText_mutualText, haccepted, hfirst, by decide⟩

/-! ### Conditions and the checks that meet them -/

theorem index_eq_of_name_eq (hnames : (checks.map fun c => c.name).Nodup)
    {i j : Fin checks.length} (h : checks[i].name = checks[j].name) : i = j := by
  have hsame : checks.get i = checks.get j :=
    List.inj_on_of_nodup_map hnames (List.get_mem _ i) (List.get_mem _ j) h
  exact (List.Nodup.of_map _ hnames).get_inj_iff.mp hsame

theorem exists_meets_iff_of_ne {t : Tree} {condition : Condition} {i : Fin checks.length}
    (h : condition.check ≠ checks[i].name) :
    (∃ j : Fin checks.length, checks[j].Meets t condition) ↔
      ∃ j, j ≠ i ∧ checks[j].Meets t condition := by
  constructor
  · rintro ⟨j, hj⟩
    refine ⟨j, ?_, hj⟩
    rintro rfl
    exact h hj.1.symm
  · rintro ⟨j, -, hj⟩
    exact ⟨j, hj⟩

theorem exists_meets_iff_of_eq (hnames : (checks.map fun c => c.name).Nodup) {t : Tree}
    {condition : Condition} {i : Fin checks.length} (h : condition.check = checks[i].name) :
    (∃ j : Fin checks.length, checks[j].Meets t condition) ↔
      (checks[i].run t).verdict = condition.verdict := by
  constructor
  · rintro ⟨j, hname, hverdict⟩
    obtain rfl := index_eq_of_name_eq hnames (hname.trans h)
    exact hverdict
  · intro hverdict
    exact ⟨i, h.symm, hverdict⟩

/-- A check of a suite is suppressed exactly if some check meets its condition. If the condition
names another check, that one decides; if it names the check itself, no other check meets it, and
the check is suppressed by its own verdict. -/
theorem suppressed_runAll {origin s : String} {suite : Suite}
    (h : Suite.ofText origin s = .ok suite) (t : Tree) (i : Fin suite.checks.length) :
    ∃ r, (runAll suite.checks t)[i.val]? = some r ∧ r.outcome = suite.checks[i].run t ∧
      (r.suppressed = true ↔ ∃ condition, suite.checks[i].suppressIf = some condition ∧
        ∃ j : Fin suite.checks.length, suite.checks[j].Meets t condition) ∧
      ∀ condition, suite.checks[i].suppressIf = some condition →
        (condition.check ≠ suite.checks[i].name →
          (r.suppressed = true ↔ ∃ j, j ≠ i ∧ suite.checks[j].Meets t condition)) ∧
        (condition.check = suite.checks[i].name →
          (¬ ∃ j, j ≠ i ∧ suite.checks[j].Meets t condition) ∧
            (r.suppressed = true ↔ r.outcome.verdict = condition.verdict)) := by
  have hnames := (Suite.legible_of_ofText h).names
  let suppressed := Outcome.isSuppressed (suite.checks.map fun d => d.run t) (suite.checks[i].run t)
  have hreport : (runAll suite.checks t)[i.val]? = some ⟨suite.checks[i].run t, suppressed⟩ := by
    rw [runAll_eq_map, List.getElem?_map, List.getElem?_eq_getElem i.isLt]
    rfl
  have hsuppressed : suppressed = true ↔
      ∃ condition, suite.checks[i].suppressIf = some condition ∧
        ∃ j : Fin suite.checks.length, suite.checks[j].Meets t condition := by
    have hwaived := (isSuppressed_run_iff hnames t suite.checks[i]).trans waived_iff
    simp only [List.exists_mem_iff_get] at hwaived
    exact hwaived
  refine ⟨_, hreport, rfl, hsuppressed, fun condition hcondition => ?_⟩
  have hmet : suppressed = true ↔
      ∃ j : Fin suite.checks.length, suite.checks[j].Meets t condition := by
    rw [hsuppressed]
    constructor
    · rintro ⟨condition', hcondition', hj⟩
      obtain rfl := Option.some.inj (hcondition.symm.trans hcondition')
      exact hj
    · intro hj
      exact ⟨condition, hcondition, hj⟩
  -- Only one check has the name in the condition: it is another one, or the check itself.
  refine ⟨fun hother => hmet.trans (exists_meets_iff_of_ne hother), fun hself => ⟨?_, ?_⟩⟩
  · rintro ⟨j, hne, hname, -⟩
    exact hne (index_eq_of_name_eq hnames (hname.trans hself))
  · exact hmet.trans (exists_meets_iff_of_eq hnames hself)

theorem suppressed_runAll_mutual :
    Suite.ofText "<inline>" mutualText = .ok mutualSuite ∧
      ∃ r, (runAll mutualSuite.checks (.call (.bare "f") []))[1]? = some r ∧
        r.suppressed = true := by
  obtain ⟨r, hr, -, -, hcondition⟩ :=
    suppressed_runAll ofText_mutualText (.call (.bare "f") []) (1 : Fin 2)
  obtain ⟨hother, -⟩ := hcondition ⟨"a", .pass⟩ rfl
  have hne : (0 : Fin 2) ≠ 1 := by decide
  exact ⟨ofText_mutualText, r, hr, (hother (by decide)).mpr ⟨(0 : Fin 2), hne, by decide⟩⟩

/-- A check that is not to be counted if it fails. -/
def selfText : String :=
  r#"{"checks":[{"name":"a","called":"f","suppress_if":{"check":"a","verdict":"fail"}}]}"#

def selfSuite : Suite where
  checks :=
    [{ name := "a", description := "", comment := "", category := .actionable,
       suppressIf := some ⟨"a", .fail⟩, called := some (.unqualified "f"), caller := none,
       expected := true }]

/-- The check is suppressed, and the run is a success, although no other check meets its
condition. -/
theorem suppressed_by_itself :
    Suite.ofText "<inline>" selfText = .ok selfSuite ∧
      ∃ (i : Fin selfSuite.checks.length) (r : Reported),
        (runAll selfSuite.checks (.var "x"))[i.val]? = some r ∧ r.suppressed = true ∧
          (¬ ∃ condition, selfSuite.checks[i].suppressIf = some condition ∧
            ∃ j, j ≠ i ∧ selfSuite.checks[j].Meets (.var "x") condition) ∧
          (Summary.Checks.ofReported "ast.json" (runAll selfSuite.checks (.var "x"))).succeeded =
            true := by
  refine ⟨by decide +kernel, (0 : Fin 1), _, rfl, by decide, ?_, by decide⟩
  rintro ⟨condition, -, j, hne, -⟩
  have honly : ∀ k : Fin 1, k = 0 := by decide
  exact hne (honly j)

end Check

end CallAudit
