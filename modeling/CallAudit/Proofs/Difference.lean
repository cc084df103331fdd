import Mathlib.Data.List.Basic
import Mathlib.Data.List.Count
import CallAudit.Name.Module

/-!
# Names without the segments of other names

Taking the segments of one name away from another one is a difference of multisets that keeps the
order: each segment loses as many occurrences as it has in the name that is taken away, and it loses
the first ones. So the order of the segments that are taken away does not matter, and nothing is
left exactly if every segment is taken away at least as often as it occurs.

## Main definitions

* `ModuleName.Stays`: a place of a list is behind the first occurrences of its segment.
* `ModuleName.dropFirst`: the segments at the places that stay.

## Main statements

* `ModuleName.diff_eq_dropFirst`: taking segments away one by one, in closed form.
* `ModuleName.without_is_difference`: what is left of a name.
-/

namespace CallAudit.ModuleName

variable {segments taken : List String}

/-- The segment at a place occurs at least as often before that place as the quota says. -/
def Stays (quota : String → Nat) (segments : List String) (place : String × Nat) : Prop :=
  quota place.1 ≤ (segments.take place.2).count place.1

instance (quota : String → Nat) (segments : List String) :
    DecidablePred (Stays quota segments) :=
  fun _ => inferInstanceAs (Decidable (_ ≤ _))

/-- The segments without the first `quota s` occurrences of each segment `s`. -/
def dropFirst (quota : String → Nat) (segments : List String) : List String :=
  (segments.zipIdx.filter (Stays quota segments ·)).map Prod.fst

/-! ### The closed form -/

theorem stays_cons_zero_iff {quota : String → Nat} {s : String} :
    Stays quota (s :: segments) (s, 0) ↔ quota s = 0 := by
  simp [Stays]

/-- Seen from behind the first segment, one occurrence of it is already dropped. -/
theorem stays_cons_succ_iff {quota : String → Nat} {s other : String} {i : Nat} :
    Stays quota (s :: segments) (other, i + 1) ↔
      Stays (fun s' => quota s' - [s].count s') segments (other, i) := by
  rw [Stays, Stays, List.take_succ_cons, List.count_cons, List.count_singleton,
    Nat.sub_le_iff_le_add]

theorem dropFirst_cons (quota : String → Nat) (s : String) :
    dropFirst quota (s :: segments) =
      (if quota s = 0 then [s] else []) ++
        dropFirst (fun s' => quota s' - [s].count s') segments := by
  have hbehind : ((segments.zipIdx 1).filter (Stays quota (s :: segments) ·)).map Prod.fst =
      dropFirst (fun s' => quota s' - [s].count s') segments := by
    rw [List.zipIdx_succ, List.filter_map, List.map_map, dropFirst]
    refine congrArg₂ List.map rfl (List.filter_congr fun place _ => ?_)
    exact decide_eq_decide.mpr stays_cons_succ_iff
  rw [dropFirst, List.zipIdx_cons, List.filter_cons]
  by_cases hs : quota s = 0
  · rw [if_pos (decide_eq_true (stays_cons_zero_iff.mpr hs)), if_pos hs, List.map_cons, hbehind]
    rfl
  · rw [if_neg (by simpa [stays_cons_zero_iff] using hs), if_neg hs, hbehind]
    rfl

/-- Taking segments away one after the other drops as many occurrences of each segment as are taken
away, and the first ones. -/
theorem diff_eq_dropFirst : segments.diff taken = dropFirst taken.count segments := by
  -- The induction is on the list that shrinks, not on the segments that are taken away.
  induction segments generalizing taken with
  | nil => simp [dropFirst]
  | cons s segments ih =>
    rw [List.cons_diff, dropFirst_cons]
    by_cases hs : s ∈ taken
    · have hcount : (taken.erase s).count = fun s' => taken.count s' - [s].count s' := by
        funext s'
        rw [List.count_erase, List.count_singleton]
      rw [if_pos hs, if_neg (Nat.ne_of_gt (List.count_pos_iff.mpr hs)), ih, hcount, List.nil_append]
    · have hcount : taken.count = fun s' => taken.count s' - [s].count s' := by
        funext s'
        by_cases heq : s = s'
        · rw [← heq, List.count_eq_zero.mpr hs, Nat.zero_sub]
        · rw [List.count_singleton, if_neg (by simpa using heq), Nat.sub_zero]
      rw [if_neg hs, if_pos (List.count_eq_zero.mpr hs), ih, ← hcount, List.singleton_append]

/-- A quota beyond the occurrences that there are is the same as one for all of them. -/
theorem dropFirst_min (quota : String → Nat) :
    dropFirst (fun s => min (segments.count s) (quota s)) segments = dropFirst quota segments := by
  refine congrArg₂ List.map rfl (List.filter_congr fun place hplace => ?_)
  have hupto : (segments.take (place.2 + 1)).count place.1 =
      (segments.take place.2).count place.1 + 1 := by
    rw [List.take_add_one, List.mem_zipIdx_iff_getElem?.mp hplace, List.count_append,
      Option.toList_some, List.count_singleton_self]
  have hall : (segments.take (place.2 + 1)).count place.1 ≤ segments.count place.1 :=
    (List.take_sublist _ _).count_le _
  refine decide_eq_decide.mpr ?_
  rw [Stays, Stays]
  omega

/-! ### Parts that are taken away whole -/

theorem diff_eq_nil_iff :
    segments.diff taken = [] ↔ ∀ s, segments.count s ≤ taken.count s := by
  have hcount : segments.diff taken = [] ↔ ∀ s, (segments.diff taken).count s = 0 := by
    rw [List.eq_nil_iff_forall_not_mem]
    exact forall_congr' fun s => List.count_eq_zero.symm
  simp only [hcount, List.count_diff, Nat.sub_eq_zero_iff_le]

theorem append_diff_left : (taken ++ segments).diff taken = segments := by
  induction taken with
  | nil => rfl
  | cons s taken ih =>
    rw [List.cons_append, List.cons_diff, if_pos List.mem_cons_self, List.erase_cons_head, ih]

theorem append_diff_right (h : List.Disjoint segments taken) :
    (segments ++ taken).diff taken = segments := by
  induction segments with
  | nil => exact diff_eq_nil_iff.mpr fun s => Nat.le_refl _
  | cons s segments ih =>
    obtain ⟨hs, hrest⟩ := List.disjoint_cons_left.mp h
    rw [List.cons_append, List.cons_diff, if_neg hs, ih hrest]

/-! ### Names -/

theorem without_eq (m n : ModuleName) : m.without n = ofSegments? (m.segments.diff n.segments) := by
  rw [without, List.diff_eq_foldl]

/-- The difference of two names. Nothing is left exactly if every segment occurs at least as often
in the second name. Otherwise the segments of the first name are left in their order, without the
first occurrences of each segment, as many as both names have of it. The order of the second name
does not matter. What was put in front of a name can be taken away again, and what was put behind it
can be if the two share no segment. -/
theorem without_is_difference (m n : ModuleName) :
    (m.without n = none ↔ ∀ s, m.segments.count s ≤ n.segments.count s) ∧
    (∀ k, m.without n = some k ↔
      (∃ s, n.segments.count s < m.segments.count s) ∧
        k.segments =
          dropFirst (fun s => min (m.segments.count s) (n.segments.count s)) m.segments) ∧
    (∀ n' : ModuleName, n'.segments.Perm n.segments → m.without n' = m.without n) ∧
    (m.append n).without m = some n ∧
    (List.Disjoint m.segments n.segments → (m.append n).without n = some m) := by
  have hnone : m.without n = none ↔ ∀ s, m.segments.count s ≤ n.segments.count s := by
    rw [without_eq, ofSegments?_eq_none_iff, diff_eq_nil_iff]
  refine ⟨hnone, fun k => ?_, fun n' hperm => ?_, ?_, fun hdisjoint => ?_⟩
  · have hsome : m.without n = some k → ∃ s, n.segments.count s < m.segments.count s := by
      intro h
      by_contra hnot
      have hle := hnone.mpr fun s => Nat.le_of_not_lt fun hlt => hnot ⟨s, hlt⟩
      rw [hle] at h
      cases h
    rw [dropFirst_min, ← diff_eq_dropFirst, ← ofSegments?_eq_some_iff, ← without_eq]
    exact ⟨fun h => ⟨hsome h, h⟩, fun h => h.2⟩
  · rw [without_eq, without_eq, hperm.diff_left]
  · rw [without_eq, segments_append, append_diff_left]
    rfl
  · rw [without_eq, segments_append, append_diff_right hdisjoint]
    rfl

/-- A segment that occurs three times is taken away twice, and the last occurrence stays. -/
theorem without_is_difference_repeated :
    let m : ModuleName := ⟨"A", ["B", "A", "B", "A"]⟩
    let n : ModuleName := ⟨"A", ["C", "A"]⟩
    let n' : ModuleName := ⟨"C", ["A", "A"]⟩
    let k : ModuleName := ⟨"C", ["D", "C"]⟩
    n'.segments.Perm n.segments ∧ m.without n' = some ⟨"B", ["B", "A"]⟩ ∧
      List.Disjoint m.segments k.segments ∧ (m.append k).without k = some m := by
  intro m n n' k
  have hperm : n'.segments.Perm n.segments := by decide
  have hdisjoint : List.Disjoint m.segments k.segments := by simp [m, k, segments]
  obtain ⟨-, hleft, horder, -⟩ := without_is_difference m n
  obtain ⟨-, -, -, -, hback⟩ := without_is_difference m k
  refine ⟨hperm, ?_, hdisjoint, hback hdisjoint⟩
  rw [horder n' hperm]
  exact (hleft _).mpr ⟨⟨"B", by decide⟩, by decide⟩

end CallAudit.ModuleName
