import Mathlib.Data.List.Nodup
import CallAudit.Check.Suite
import CallAudit.Check.Suppression

/-!
# Names of checks

A suite is only read if its checks have different names. Then a name decides on one check, and a
condition that refers to a check by its name holds exactly if the check with that name has the
verdict.

## Main definitions

* `Check.Waived`: the condition of a check holds.

## Main statements

* `Suite.ofText_eq_ok_iff`: a suite is read exactly if it is decoded and its names are distinct.
* `Outcome.verdictOf_eq_some_iff`: the verdict under a name.
* `Check.isSuppressed_run_iff`: which outcomes of checks are suppressed.
-/

namespace CallAudit

namespace Suite

theorem firstRepeated_eq_none_iff {seen names : List String} :
    firstRepeated seen names = none ↔ names.Nodup ∧ ∀ name ∈ names, name ∉ seen := by
  induction names generalizing seen with
  | nil => simp [firstRepeated]
  | cons name names ih =>
    rw [firstRepeated]
    by_cases hseen : name ∈ seen
    · simp [hseen]
    · -- The name is taken in, so no later name may be equal to it.
      rw [if_neg (by simpa using hseen), ih, List.nodup_cons]
      constructor
      · rintro ⟨hnodup, hnames⟩
        have hnotin : name ∉ names := fun h => hnames name h List.mem_cons_self
        refine ⟨⟨hnotin, hnodup⟩, ?_⟩
        rintro other hother
        rcases List.mem_cons.mp hother with rfl | hother
        · exact hseen
        · exact fun h => hnames other hother (List.mem_cons_of_mem name h)
      · rintro ⟨⟨hnotin, hnodup⟩, hnames⟩
        refine ⟨hnodup, fun other hother hmem => ?_⟩
        rcases List.mem_cons.mp hmem with rfl | hmem
        · exact hnotin hother
        · exact hnames other (List.mem_cons_of_mem name hother) hmem

theorem ofText_eq_ok_iff {origin s : String} {suite : Suite} :
    ofText origin s = .ok suite ↔
      decode s = .ok suite ∧ (suite.checks.map fun c => c.name).Nodup := by
  have hdistinct : ∀ names : List String, firstRepeated [] names = none ↔ names.Nodup := by
    intro names
    simp [firstRepeated_eq_none_iff]
  rw [ofText]
  cases decode s with
  | error fault => simp
  | ok decoded =>
    cases hrepeated : firstRepeated [] (decoded.checks.map fun c => c.name) with
    | none =>
      have hnodup := (hdistinct _).mp hrepeated
      simp only [hrepeated]
      constructor
      · intro h
        obtain rfl := Except.ok.inj h
        exact ⟨rfl, hnodup⟩
      · rintro ⟨h, -⟩
        rw [Except.ok.inj h]
    | some name =>
      simp only [hrepeated]
      constructor
      · intro h
        cases h
      · rintro ⟨h, hnodup⟩
        obtain rfl := Except.ok.inj h
        exact absurd ((hdistinct _).mpr hnodup) (by simp [hrepeated])

end Suite

theorem Verdict.judge_eq_iff {found expected : Bool} {v : Verdict} :
    judge found expected = v ↔ (v = .pass ↔ found = expected) := by
  by_cases h : found = expected
  · simp [judge, h, eq_comm]
  · cases v <;> simp [judge, h]

namespace Outcome

/-- Where no name stands twice, the outcome with a name is not only the last one of that name. -/
theorem verdictOf_eq_some_iff {outcomes : List Outcome}
    (h : (outcomes.map fun o => o.remark.name).Nodup) {name : String} {v : Verdict} :
    verdictOf outcomes name = some v ↔ ∃ o ∈ outcomes, o.remark.name = name ∧ o.verdict = v := by
  rw [verdictOf, Option.map_eq_some_iff]
  constructor
  · rintro ⟨o, hfind, rfl⟩
    have hname := List.find?_some hfind
    exact ⟨o, List.mem_reverse.mp (List.mem_of_find?_eq_some hfind), by simpa using hname, rfl⟩
  · rintro ⟨o, ho, rfl, rfl⟩
    cases hfind : outcomes.reverse.find? fun o' => o'.remark.name == o.remark.name with
    | none =>
      rw [List.find?_eq_none] at hfind
      exact absurd (hfind o (List.mem_reverse.mpr ho)) (by simp)
    | some o' =>
      have hmem := List.mem_reverse.mp (List.mem_of_find?_eq_some hfind)
      have hname : o'.remark.name = o.remark.name := by simpa using List.find?_some hfind
      obtain rfl : o' = o := List.inj_on_of_nodup_map h hmem ho hname
      exact ⟨o', rfl, rfl⟩

end Outcome

namespace Check

/-- The condition of a check holds: there is a check with the name and the verdict that it asks
for. -/
def Waived (c : Check) (checks : List Check) (t : Tree) : Prop :=
  ∃ condition, c.suppressIf = some condition ∧
    ∃ d ∈ checks, d.name = condition.check ∧
      (condition.verdict = .pass ↔ d.query.occursIn t = d.expected)

theorem isSuppressed_run_iff {checks : List Check} (h : (checks.map fun c => c.name).Nodup)
    (t : Tree) (c : Check) :
    Outcome.isSuppressed (checks.map fun d => d.run t) (c.run t) = true ↔ c.Waived checks t := by
  have hnames : ((checks.map fun d => d.run t).map fun o => o.remark.name).Nodup := by
    rw [List.map_map]
    exact h
  have hremark : (c.run t).remark.suppressIf = c.suppressIf := rfl
  rw [Outcome.isSuppressed, hremark, Waived]
  cases c.suppressIf with
  | none => simp
  | some condition =>
    rw [beq_iff_eq, Outcome.verdictOf_eq_some_iff hnames]
    constructor
    · rintro ⟨o, ho, hname, hverdict⟩
      obtain ⟨d, hd, rfl⟩ := List.mem_map.mp ho
      exact ⟨condition, rfl, d, hd, hname, Verdict.judge_eq_iff.mp hverdict⟩
    · rintro ⟨_, hcondition, d, hd, hname, hverdict⟩
      obtain rfl := Option.some.inj hcondition
      exact ⟨d.run t, List.mem_map_of_mem hd, hname, Verdict.judge_eq_iff.mpr hverdict⟩

end Check

end CallAudit
