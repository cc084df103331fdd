import Mathlib.Order.Bounds.Basic
import Mathlib.Order.Fin.Basic
import Mathlib.Order.WellFounded
import CallAudit.Proofs.CheckNames

/-!
# The name that is reported as repeated

The names of a suite are compared while they are taken in one after the other, and the first one
that was taken in before ends the comparison. So of several repeated names the one is reported whose
second occurrence comes first, wherever the first occurrences are.

## Main definitions

* `Check.Repeats`: a check of a list has the name of a check before it.

## Main statements

* `Check.nodup_names_take_iff`: the names before a place are distinct exactly if no check there
  repeats one.
* `Suite.firstRepeated_append`: the comparison goes on behind names that are new.
* `Suite.firstRepeated_of_isLeast`: the name that ends the comparison.
* `Suite.ofInlineText_of_decode`: the suite of a text, or the name that stands twice in it.
-/

namespace CallAudit

namespace Check

variable {checks : List Check}

/-- The check at a place has the name of a check before it. -/
def Repeats (checks : List Check) (j : Fin checks.length) : Prop :=
  ∃ i < j, (checks.get i).name = (checks.get j).name

instance : DecidablePred (Repeats checks) :=
  fun j => inferInstanceAs (Decidable (∃ i < j, (checks.get i).name = (checks.get j).name))

theorem nodup_names_take_iff (checks : List Check) (n : Nat) :
    ((checks.take n).map fun c => c.name).Nodup ↔
      ∀ j : Fin checks.length, j.val < n → ¬ Repeats checks j := by
  rw [List.Nodup, List.pairwise_map, List.pairwise_iff_getElem]
  simp only [List.getElem_take]
  constructor
  · rintro hne j hjn ⟨i, hlt, heq⟩
    have hj : j.val < (checks.take n).length := by
      rw [List.length_take]
      omega
    exact hne i j (Nat.lt_trans hlt hj) hj hlt heq
  · intro hnone i j hi hj hlt heq
    have hjn : j < n := Nat.lt_of_lt_of_le hj (List.length_take_le n checks)
    have hjlen : j < checks.length := Nat.lt_of_lt_of_le hj (List.length_take_le' n checks)
    exact hnone ⟨j, hjlen⟩ hjn ⟨⟨i, Nat.lt_trans hlt hjlen⟩, hlt, heq⟩

theorem nodup_names_iff : (checks.map fun c => c.name).Nodup ↔ ∀ j, ¬ Repeats checks j := by
  have hall := nodup_names_take_iff checks checks.length
  rw [List.take_length] at hall
  exact hall.trans ⟨fun h j => h j j.isLt, fun h j _ => h j⟩

theorem exists_isLeast_repeats (h : ¬ (checks.map fun c => c.name).Nodup) :
    ∃ j, IsLeast {j | Repeats checks j} j := by
  rw [nodup_names_iff] at h
  obtain ⟨j, hj⟩ := not_forall_not.mp h
  obtain ⟨least, hleast, hmin⟩ := wellFounded_lt.has_min {j | Repeats checks j} ⟨j, hj⟩
  exact ⟨least, hleast, fun k hk => not_lt.mp (hmin k hk)⟩

end Check

namespace Suite

/-- As long as all names are new, they are taken in, and the comparison goes on behind them. -/
theorem firstRepeated_append {seen before : List String} (h : firstRepeated seen before = none)
    (behind : List String) :
    firstRepeated seen (before ++ behind) = firstRepeated (before.reverse ++ seen) behind := by
  -- What was taken in grows from step to step, so the induction is for any names before the list.
  induction before generalizing seen with
  | nil => rfl
  | cons name before ih =>
    rw [firstRepeated] at h
    by_cases hseen : seen.contains name = true
    · rw [if_pos hseen] at h
      cases h
    · rw [if_neg hseen] at h
      rw [List.cons_append, firstRepeated, if_neg hseen, ih h, List.reverse_cons, List.append_assoc,
        List.singleton_append]

/-- The comparison ends at the first check that repeats a name. -/
theorem firstRepeated_of_isLeast {checks : List Check} {j : Fin checks.length}
    (h : IsLeast {j | Check.Repeats checks j} j) :
    firstRepeated [] (checks.map fun c => c.name) = some (checks.get j).name := by
  obtain ⟨⟨i, hlt, heq⟩, hlower⟩ := h
  -- All names before the place are taken in, and the name at the place is one of them.
  have hsplit : checks.map (fun c => c.name) = ((checks.take j).map fun c => c.name) ++
      (checks.get j).name :: (checks.drop (j + 1)).map fun c => c.name := by
    conv_lhs => rw [← List.take_append_drop j.val checks, List.drop_eq_getElem_cons j.isLt]
    rw [List.map_append, List.map_cons]
    rfl
  have hnodup : ((checks.take j).map fun c => c.name).Nodup := by
    rw [Check.nodup_names_take_iff]
    intro k hk hrepeats
    exact absurd (hlower hrepeats) (not_le.mpr hk)
  have hnew : firstRepeated [] ((checks.take j).map fun c => c.name) = none :=
    firstRepeated_eq_none_iff.mpr ⟨hnodup, fun _ _ => List.not_mem_nil⟩
  have hmem : (checks.get j).name ∈ (checks.take j).map fun c => c.name := by
    rw [← heq]
    exact List.mem_map_of_mem (List.mem_take_iff_getElem.mpr ⟨i, by omega, rfl⟩)
  rw [hsplit, firstRepeated_append hnew, firstRepeated, if_pos (by simpa using hmem)]

theorem ofText_of_firstRepeated {origin s name : String} {suite : Suite}
    (hdecode : decode s = .ok suite)
    (hname : firstRepeated [] (suite.checks.map fun c => c.name) = some name) :
    ofText origin s = .error (.duplicate origin name) := by
  rw [ofText, hdecode]
  simp only [hname]

/-- A text that holds a list of checks is read as this list exactly if all their names are
different. Otherwise the text is refused, with the name of the first check that has the name of a
check before it. -/
theorem ofInlineText_of_decode {s : String} {suite : Suite} (h : decode s = .ok suite) :
    (ofInlineText s = .ok suite ↔ (suite.checks.map fun c => c.name).Nodup) ∧
      (¬ (suite.checks.map fun c => c.name).Nodup →
        ∃ j : Fin suite.checks.length, IsLeast {j | Check.Repeats suite.checks j} j ∧
          ofInlineText s = .error (.duplicate "<inline>" (suite.checks.get j).name)) := by
  constructor
  · rw [ofInlineText, ofText_eq_ok_iff]
    exact and_iff_right h
  · intro hrepeated
    obtain ⟨j, hj⟩ := Check.exists_isLeast_repeats hrepeated
    exact ⟨j, hj, ofText_of_firstRepeated h (firstRepeated_of_isLeast hj)⟩

/-- The name `a` comes first and is repeated, but the second `b` stands before the second `a`. One
check is given by position, and one name is written with an escape. -/
def interleavedText : String :=
  r#"{"checks":[{"name":"a"},["b"],{"name":"\u0062","called":"f"},{"name":"a"}]}"#

def interleavedSuite : Suite where
  checks :=
    [plain "a" none, plain "b" none, plain "b" (some (.unqualified "f")), plain "a" none]
where
  plain (name : String) (called : Option Signature) : Check :=
    { name, description := "", comment := "", category := .actionable, suppressIf := none, called,
      caller := none, expected := true }

theorem ofInlineText_interleaved :
    decode interleavedText = .ok interleavedSuite ∧
      ¬ (interleavedSuite.checks.map fun c => c.name).Nodup ∧
      ofInlineText interleavedText = .error (.duplicate "<inline>" "b") := by
  have hdecode : decode interleavedText = .ok interleavedSuite := by decide +kernel
  have hrepeated : ¬ (interleavedSuite.checks.map fun c => c.name).Nodup := by decide
  let third : Fin interleavedSuite.checks.length := ⟨2, by decide⟩
  have hrepeats : Check.Repeats interleavedSuite.checks third := by decide
  have hbefore : ∀ k, Check.Repeats interleavedSuite.checks k → third ≤ k := by decide
  obtain ⟨-, hrefused⟩ := ofInlineText_of_decode hdecode
  obtain ⟨j, hj, hrefusal⟩ := hrefused hrepeated
  obtain rfl : j = third := hj.unique ⟨hrepeats, hbefore⟩
  exact ⟨hdecode, hrepeated, hrefusal⟩

end Suite

end CallAudit
