import Mathlib.Data.List.DropRight
import CallAudit.Text.Blank

/-!
# Pieces of a dotted text

A text falls into pieces at its dots, and each piece is taken without the blanks around it. The
blanks around the whole text lie in its first and in its last piece, so it makes no difference
whether they are dropped before the text is cut or afterwards.

## Main definitions

* `Text.Tight`: characters with no blank at either end.
* `Text.Clean`: a text that is the only piece of itself.
* `Text.pieces`: the pieces of a text.
* `Text.beforeLastDot`: the text in front of its last piece.

## Main statements

* `Text.trim_append_cons`: trimming around a character that is not blank.
* `Text.pieces_trim`: the blanks around a text do not show in its pieces.
* `Text.clean_of_mem_pieces`, `Text.pieces_intercalate`: pieces are clean, and clean texts with dots
  between them fall into themselves.
-/

namespace CallAudit.Text

def Tight (cs : List Char) : Prop :=
  (∀ c ∈ cs.head?, isBlank c = false) ∧ ∀ c ∈ cs.getLast?, isBlank c = false

/-- A text that is not empty, has no dot in it and no blank at either end. -/
structure Clean (s : String) : Prop where
  ne_empty : s ≠ ""
  no_dot : '.' ∉ s.toList
  tight : Tight s.toList

/-- What stands between the dots of a text, without the blanks around it. -/
def pieces (cs : List Char) : List String :=
  (cs.splitOn '.').map fun piece => String.ofList (trim piece)

/-- What stands before the last dot of a text. -/
def beforeLastDot (cs : List Char) : List Char := ['.'].intercalate (cs.splitOn '.').dropLast

theorem trim_eq_rdropWhile (cs : List Char) :
    trim cs = (cs.dropWhile isBlank).rdropWhile isBlank := rfl

theorem trim_eq_nil_iff {cs : List Char} : trim cs = [] ↔ ∀ c ∈ cs, isBlank c = true := by
  rw [trim_eq_rdropWhile, List.rdropWhile_eq_nil_iff]
  constructor
  · intro h
    -- A character that is not blank stops the first trimming, so nothing may be left behind it.
    have hnil : cs.dropWhile isBlank = [] := by
      cases hdrop : cs.dropWhile isBlank with
      | nil => rfl
      | cons c rest =>
        have hc := List.head?_dropWhile_not isBlank cs
        rw [hdrop] at h hc
        have hblank := h c List.mem_cons_self
        exact absurd (hblank.symm.trans hc) (by decide)
    exact List.dropWhile_eq_nil_iff.mp hnil
  · intro h c hc
    exact h c (List.dropWhile_subset isBlank hc)

theorem rdropWhile_sublist (cs : List Char) : (cs.rdropWhile isBlank).Sublist cs := by
  have hinit := List.rdropWhile_prefix isBlank cs
  exact hinit.sublist

theorem trim_sublist (cs : List Char) : (trim cs).Sublist cs :=
  (rdropWhile_sublist _).trans (List.dropWhile_sublist isBlank)

theorem tight_trim (cs : List Char) : Tight (trim cs) := by
  rw [trim_eq_rdropWhile]
  constructor
  · intro c hc
    obtain ⟨rest, hrest⟩ := List.rdropWhile_prefix isBlank (cs.dropWhile isBlank)
    have hhead := List.head?_dropWhile_not isBlank cs
    rw [← hrest, List.head?_append, Option.mem_def.mp hc] at hhead
    exact hhead
  · intro c hc
    have hne : (cs.dropWhile isBlank).rdropWhile isBlank ≠ [] := by
      intro hnil
      rw [hnil] at hc
      cases hc
    have hlast := List.rdropWhile_last_not isBlank (cs.dropWhile isBlank) hne
    rw [List.getLast?_eq_getLast_of_ne_nil hne] at hc
    rw [← Option.some.inj hc]
    simpa using hlast

theorem trim_of_tight {cs : List Char} (h : Tight cs) : trim cs = cs := by
  cases cs with
  | nil => rfl
  | cons c cs =>
    have hfirst : (c :: cs).dropWhile isBlank = c :: cs := by
      rw [List.dropWhile_cons, h.1 c rfl]
      rfl
    rw [trim_eq_rdropWhile, hfirst, List.rdropWhile_eq_self_iff]
    intro hne
    have hlast := h.2 _ (List.getLast?_eq_getLast_of_ne_nil hne)
    simp [hlast]

theorem trim_blanks_append {blanks : List Char} (h : ∀ c ∈ blanks, isBlank c = true)
    (cs : List Char) : trim (blanks ++ cs) = trim cs := by
  rw [trim_eq_rdropWhile, List.dropWhile_append_of_pos h, ← trim_eq_rdropWhile]

theorem trim_append_blanks {blanks : List Char} (h : ∀ c ∈ blanks, isBlank c = true)
    (cs : List Char) : trim (cs ++ blanks) = trim cs := by
  have hreverse : ∀ c ∈ blanks.reverse, isBlank c = true := by simpa using h
  rw [trim_eq_rdropWhile, trim_eq_rdropWhile, List.dropWhile_append]
  by_cases hcs : (cs.dropWhile isBlank).isEmpty = true
  · rw [if_pos hcs, List.dropWhile_eq_nil_iff.mpr h, List.isEmpty_iff.mp hcs]
  · rw [if_neg hcs, List.rdropWhile, List.reverse_append, List.dropWhile_append_of_pos hreverse,
      List.rdropWhile]

theorem trim_dropWhile (cs : List Char) : trim (cs.dropWhile isBlank) = trim cs := by
  have hblank : ∀ c ∈ cs.takeWhile isBlank, isBlank c = true := fun _ => List.mem_takeWhile_imp
  calc trim (cs.dropWhile isBlank)
      = trim (cs.takeWhile isBlank ++ cs.dropWhile isBlank) := (trim_blanks_append hblank _).symm
    _ = trim cs := by rw [List.takeWhile_append_dropWhile]

theorem trim_rdropWhile (cs : List Char) : trim (cs.rdropWhile isBlank) = trim cs := by
  have hblank : ∀ c ∈ cs.rtakeWhile isBlank, isBlank c = true := fun _ => List.mem_rtakeWhile_imp
  calc trim (cs.rdropWhile isBlank)
      = trim (cs.rdropWhile isBlank ++ cs.rtakeWhile isBlank) := (trim_append_blanks hblank _).symm
    _ = trim cs := by rw [List.rdropWhile_append_rtakeWhile]

theorem dropWhile_append_cons {c : Char} (hc : isBlank c = false) (before after : List Char) :
    (before ++ c :: after).dropWhile isBlank = before.dropWhile isBlank ++ c :: after := by
  rw [List.dropWhile_append, List.dropWhile_cons, hc]
  by_cases hbefore : (before.dropWhile isBlank).isEmpty = true
  · rw [if_pos hbefore, List.isEmpty_iff.mp hbefore]
    rfl
  · rw [if_neg hbefore]

theorem rdropWhile_append_cons {c : Char} (hc : isBlank c = false) (before after : List Char) :
    (before ++ c :: after).rdropWhile isBlank = before ++ c :: after.rdropWhile isBlank := by
  have hreverse : (before ++ c :: after).reverse = after.reverse ++ c :: before.reverse := by simp
  rw [List.rdropWhile, hreverse, dropWhile_append_cons hc, List.rdropWhile]
  simp

/-- A character that is not blank keeps what is trimmed before it apart from what is trimmed behind
it. -/
theorem trim_append_cons {c : Char} (hc : isBlank c = false) (before after : List Char) :
    trim (before ++ c :: after) =
      before.dropWhile isBlank ++ c :: after.rdropWhile isBlank := by
  rw [trim_eq_rdropWhile, dropWhile_append_cons hc, rdropWhile_append_cons hc]

theorem exists_last_dot {cs : List Char} (h : '.' ∈ cs) :
    ∃ before after, cs = before ++ '.' :: after ∧ '.' ∉ after := by
  obtain ⟨after, before, hcs, hafter⟩ := List.eq_append_cons_of_mem (List.mem_reverse.mpr h)
  refine ⟨before.reverse, after.reverse, ?_, by simpa using hafter⟩
  rw [← List.reverse_inj, hcs]
  simp

theorem pieces_of_not_mem {cs : List Char} (h : '.' ∉ cs) :
    pieces cs = [String.ofList (trim cs)] := by
  rw [pieces, List.splitOn_eq_singleton h, List.map_singleton]

theorem pieces_append_dot (before after : List Char) :
    pieces (before ++ '.' :: after) = pieces before ++ pieces after := by
  rw [pieces, List.splitOn_append_cons_self, List.map_append]
  rfl

theorem pieces_ne_nil (cs : List Char) : pieces cs ≠ [] := by
  rw [pieces, Ne, List.map_eq_nil_iff]
  exact List.splitOn_ne_nil '.' cs

/-- There is one piece only where there is no dot. -/
theorem length_pieces_eq_one_iff {cs : List Char} : (pieces cs).length = 1 ↔ '.' ∉ cs := by
  constructor
  · intro hlength hdot
    obtain ⟨before, after, rfl, -⟩ := exists_last_dot hdot
    have hbefore := List.length_pos_iff.mpr (pieces_ne_nil before)
    have hafter := List.length_pos_iff.mpr (pieces_ne_nil after)
    rw [pieces_append_dot, List.length_append] at hlength
    omega
  · intro h
    rw [pieces_of_not_mem h]
    rfl

theorem pieces_dropWhile (cs : List Char) : pieces (cs.dropWhile isBlank) = pieces cs := by
  by_cases hdot : '.' ∈ cs
  · obtain ⟨before, after, rfl, hbefore⟩ := List.eq_append_cons_of_mem hdot
    have hbefore' : '.' ∉ before.dropWhile isBlank :=
      fun h => hbefore (List.dropWhile_subset isBlank h)
    rw [dropWhile_append_cons (by decide), pieces_append_dot, pieces_append_dot,
      pieces_of_not_mem hbefore', pieces_of_not_mem hbefore, trim_dropWhile]
  · have hdot' : '.' ∉ cs.dropWhile isBlank := fun h => hdot (List.dropWhile_subset isBlank h)
    rw [pieces_of_not_mem hdot', pieces_of_not_mem hdot, trim_dropWhile]

theorem pieces_rdropWhile (cs : List Char) : pieces (cs.rdropWhile isBlank) = pieces cs := by
  by_cases hdot : '.' ∈ cs
  · obtain ⟨before, after, rfl, hafter⟩ := exists_last_dot hdot
    have hafter' : '.' ∉ after.rdropWhile isBlank :=
      fun h => hafter ((rdropWhile_sublist after).subset h)
    rw [rdropWhile_append_cons (by decide), pieces_append_dot, pieces_append_dot,
      pieces_of_not_mem hafter', pieces_of_not_mem hafter, trim_rdropWhile]
  · have hdot' : '.' ∉ cs.rdropWhile isBlank := fun h => hdot ((rdropWhile_sublist cs).subset h)
    rw [pieces_of_not_mem hdot', pieces_of_not_mem hdot, trim_rdropWhile]

theorem pieces_trim (cs : List Char) : pieces (trim cs) = pieces cs := by
  rw [trim_eq_rdropWhile, pieces_rdropWhile, pieces_dropWhile]

theorem beforeLastDot_append {before after : List Char} (h : '.' ∉ after) :
    beforeLastDot (before ++ '.' :: after) = before := by
  rw [beforeLastDot, List.splitOn_append_cons_self, List.splitOn_eq_singleton h,
    List.dropLast_concat, List.intercalate_splitOn]

theorem not_mem_of_mem_splitOn {cs piece : List Char} (h : piece ∈ cs.splitOn '.') :
    '.' ∉ piece := by
  induction cs generalizing piece with
  | nil =>
    rw [List.splitOn_nil, List.mem_singleton] at h
    simp [h]
  | cons c cs ih =>
    rw [List.splitOn_cons_eq_if_modifyHead] at h
    by_cases hc : c = '.'
    · rw [if_pos (by simpa using hc), List.mem_cons] at h
      rcases h with rfl | h
      · exact List.not_mem_nil
      · exact ih h
    · rw [if_neg (by simpa using hc)] at h
      cases hsplit : cs.splitOn '.' with
      | nil => exact absurd hsplit (List.splitOn_ne_nil '.' cs)
      | cons first rest =>
        rw [hsplit] at h ih
        rcases List.mem_cons.mp h with rfl | h
        · intro hmem
          rcases List.mem_cons.mp hmem with hdot | hmem
          · exact hc hdot.symm
          · exact ih List.mem_cons_self hmem
        · exact ih (List.mem_cons_of_mem first h)

theorem clean_of_mem_pieces {cs : List Char} {p : String} (h : p ∈ pieces cs) (hne : p ≠ "") :
    Clean p := by
  obtain ⟨piece, hpiece, rfl⟩ := List.mem_map.mp h
  refine ⟨hne, ?_, ?_⟩
  · rw [String.toList_ofList]
    exact fun hdot => not_mem_of_mem_splitOn hpiece ((trim_sublist piece).subset hdot)
  · rw [String.toList_ofList]
    exact tight_trim piece

/-- Clean texts, written with dots between them, are the pieces of what is written. -/
theorem pieces_intercalate {ss : List String} (hne : ss ≠ []) (h : ∀ s ∈ ss, Clean s) :
    pieces (".".intercalate ss).toList = ss := by
  have hdots : ∀ piece ∈ ss.map String.toList, '.' ∉ piece := by
    intro piece hpiece
    obtain ⟨s, hs, rfl⟩ := List.mem_map.mp hpiece
    exact (h s hs).no_dot
  have htrim : ∀ s ∈ ss, String.ofList (trim s.toList) = s := by
    intro s hs
    rw [trim_of_tight (h s hs).tight, String.ofList_toList]
  have hsplit : (['.'].intercalate (ss.map String.toList)).splitOn '.' = ss.map String.toList :=
    List.splitOn_intercalate '.' hdots (by simpa using hne)
  calc pieces (".".intercalate ss).toList
      = ((['.'].intercalate (ss.map String.toList)).splitOn '.').map
          fun piece => String.ofList (trim piece) := by rw [pieces, String.toList_intercalate]; rfl
    _ = ss.map fun s => String.ofList (trim s.toList) := by rw [hsplit, List.map_map]; rfl
    _ = ss := by rw [List.map_congr_left htrim, List.map_id']

end CallAudit.Text
