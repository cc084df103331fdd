import CallAudit.Summary.Basic

/-!
# Suppression and counts

Outcomes may share a name, and a condition may refer to its own outcome or to one further on. It is
always the last outcome with the name in the condition that decides. Whatever is suppressed then,
the three counts of a summary divide its outcomes among them.

## Main definitions

* `Outcome.LastNamed`: the last outcome with a name.

## Main statements

* `Outcome.isSuppressed_iff`: when the condition of an outcome holds.
* `Reported.countP_passed_add_failed_add_suppressed`: each outcome is counted once.
* `Summary.Checks.succeeded_ofReported_iff`: when a summary is a success.
* `Outcome.suppress_and_count`: the reports of any outcomes, and the counts of any reports.
-/

namespace CallAudit

namespace Outcome

/-- The outcome has the name, and no outcome behind it has. -/
def LastNamed (outcomes : List Outcome) (name : String) (o : Outcome) : Prop :=
  ∃ before after, outcomes = before ++ o :: after ∧ o.remark.name = name ∧
    ∀ later ∈ after, later.remark.name ≠ name

theorem find?_reverse_eq_some_iff {outcomes : List Outcome} {name : String} {o : Outcome} :
    (outcomes.reverse.find? fun o' => o'.remark.name == name) = some o ↔
      LastNamed outcomes name o := by
  rw [List.find?_eq_some_iff_append]
  constructor
  · rintro ⟨hname, after, before, hsplit, hafter⟩
    refine ⟨before.reverse, after.reverse, ?_, by simpa using hname, ?_⟩
    · rw [← List.reverse_reverse outcomes, hsplit, List.reverse_append, List.reverse_cons,
        List.append_assoc, List.singleton_append]
    · intro later hlater
      simpa using hafter later (List.mem_reverse.mp hlater)
  · rintro ⟨before, after, rfl, hname, hafter⟩
    refine ⟨by simpa using hname, after.reverse, before.reverse, ?_, ?_⟩
    · rw [List.reverse_append, List.reverse_cons, List.append_assoc, List.singleton_append]
    · intro later hlater
      simpa using hafter later (List.mem_reverse.mp hlater)

/-- The condition of an outcome holds exactly if the last outcome with the name in it has the
verdict in it. -/
theorem isSuppressed_iff {outcomes : List Outcome} {o : Outcome} :
    isSuppressed outcomes o = true ↔
      ∃ condition, o.remark.suppressIf = some condition ∧
        ∃ decisive, LastNamed outcomes condition.check decisive ∧
          decisive.verdict = condition.verdict := by
  rw [isSuppressed]
  cases o.remark.suppressIf with
  | none => simp
  | some condition =>
    simp only [beq_iff_eq, verdictOf, Option.map_eq_some_iff, find?_reverse_eq_some_iff,
      Option.some.injEq, exists_eq_left']

end Outcome

namespace Reported

theorem failed_eq_false_iff {r : Reported} :
    r.failed = false ↔ r.outcome.verdict = .pass ∨ r.suppressed = true := by
  obtain ⟨⟨verdict, found, remark⟩, suppressed⟩ := r
  cases verdict <;> cases suppressed <;> simp [failed]

theorem counted_once (r : Reported) :
    (if r.passed then 1 else 0) + (if r.failed then 1 else 0) +
      (if r.suppressed then 1 else 0) = 1 := by
  obtain ⟨⟨verdict, found, remark⟩, suppressed⟩ := r
  cases verdict <;> cases suppressed <;> rfl

theorem countP_passed_add_failed_add_suppressed (reported : List Reported) :
    reported.countP passed + reported.countP failed + reported.countP suppressed =
      reported.length := by
  induction reported with
  | nil => rfl
  | cons r reported ih =>
    have hone := r.counted_once
    simp only [List.countP_cons, List.length_cons]
    omega

end Reported

theorem Summary.Checks.succeeded_ofReported_iff {ast : String} {reported : List Reported} :
    (ofReported ast reported).succeeded = true ↔ ∀ r ∈ reported, r.failed = false := by
  rw [succeeded, beq_iff_eq, ofReported, List.countP_eq_zero]
  simp only [Bool.not_eq_true]

/-- Deciding on conditions keeps all outcomes and their order, and suppresses exactly those whose
condition names a check of which the last outcome has the verdict that it asks for. In the summary
of any reports, each is counted once, and the summary is a success exactly if every report is
suppressed or passed. -/
theorem Outcome.suppress_and_count (outcomes : List Outcome) (ast : String)
    (reported : List Reported) :
    (suppress outcomes).length = outcomes.length ∧
    (∀ i : Fin outcomes.length, ∃ r, (suppress outcomes)[i.val]? = some r ∧
      r.outcome = outcomes[i] ∧
      (r.suppressed = true ↔ ∃ condition, outcomes[i].remark.suppressIf = some condition ∧
        ∃ decisive, LastNamed outcomes condition.check decisive ∧
          decisive.verdict = condition.verdict)) ∧
    let summary := Summary.Checks.ofReported ast reported
    summary.passed + summary.failed + summary.suppressed = reported.length ∧
      (summary.succeeded = true ↔
        ∀ r ∈ reported, r.suppressed = true ∨ r.outcome.verdict = .pass) := by
  refine ⟨List.length_map _, fun i => ?_,
    Reported.countP_passed_add_failed_add_suppressed reported, ?_⟩
  · refine ⟨⟨outcomes[i], isSuppressed outcomes outcomes[i]⟩, ?_, rfl, isSuppressed_iff⟩
    rw [suppress, List.getElem?_map, List.getElem?_eq_getElem i.isLt]
    rfl
  · have hcounts (r : Reported) :
        r.failed = false ↔ r.suppressed = true ∨ r.outcome.verdict = .pass :=
      Reported.failed_eq_false_iff.trans or_comm
    rw [Summary.Checks.succeeded_ofReported_iff]
    simp only [hcounts]

end CallAudit
