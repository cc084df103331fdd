import Mathlib.Data.List.Forall2
import CallAudit.Proofs.Suppression

/-!
# The lines of a table of checks

If no text in a summary of checks holds a line break, the table falls into the lines it was joined
from. The lines that start like the line of an outcome are then just the lines of the outcomes,
since all other lines start in another way, and a reader of the table can count the outcomes by
their lines.

## Main definitions

* `OneLine`, `linesOf`: texts without line breaks, and the lines of a text.
* `Summary.Checks.statusRows`: the lines that start like the line of an outcome, each with the line
  behind it.
* `Summary.Checks.RowOf`: a line is that of an outcome.

## Main statements

* `linesOf_joinLines`: lines that were joined are found again.
* `Summary.Checks.countP_lines`: the lines that start in a certain way.
* `Summary.Checks.forall₂_statusRows`: the lines of the outcomes, in order.
* `Summary.Checks.linesOf_table_ofReported`: the table of a summary.
-/

namespace CallAudit

/-! ### Lines -/

/-- The text holds no line break. -/
def OneLine (s : String) : Prop := '\n' ∉ s.toList

instance : DecidablePred OneLine := fun _ => inferInstanceAs (Decidable (¬ _))

@[simp] theorem oneLine_append_iff {s t : String} : OneLine (s ++ t) ↔ OneLine s ∧ OneLine t := by
  simp [OneLine]

theorem isDigit_of_mem_countText {n : Nat} {c : Char} (h : c ∈ (countText n).toList) :
    c.isDigit = true := by
  rw [countText, String.toList_ofList] at h
  exact Nat.isDigit_of_mem_toDigits (by decide) (by decide) h

theorem oneLine_countText (n : Nat) : OneLine (countText n) :=
  fun h => absurd (isDigit_of_mem_countText h) (by decide)

/-- The texts of a remark hold no line break. -/
structure Remark.OneLineTexts (r : Remark) : Prop where
  name : OneLine r.name
  description : OneLine r.description
  comment : OneLine r.comment

/-- The lines of a text. -/
def linesOf (s : String) : List String := (s.toList.splitOn '\n').map String.ofList

theorem linesOf_joinLines {lines : List String} (hne : lines ≠ [])
    (h : ∀ line ∈ lines, OneLine line) : linesOf (joinLines lines) = lines := by
  have hbreaks : ∀ line ∈ lines.map String.toList, '\n' ∉ line := by
    intro line hline
    obtain ⟨s, hs, rfl⟩ := List.mem_map.mp hline
    exact h s hs
  have hsplit : (['\n'].intercalate (lines.map String.toList)).splitOn '\n' =
      lines.map String.toList :=
    List.splitOn_intercalate '\n' hbreaks (by simpa using hne)
  have hback : String.ofList ∘ String.toList = id := funext fun s => String.ofList_toList
  have htext : (joinLines lines).toList = ['\n'].intercalate (lines.map String.toList) :=
    String.toList_intercalate
  rw [linesOf, htext, hsplit, List.map_map, hback, List.map_id]

namespace Summary.Checks

/-- The line starts with the given text. -/
def startsWith (start line : String) : Bool := start.toList.isPrefixOf line.toList

/-- The words for the state of an outcome. -/
def statusWords : List String := ["PASS", "FAIL", "SKIP"]

/-- How the line of an outcome starts. -/
def statusStart (word : String) : String := "  " ++ word ++ "  "

/-- Whether a line starts like the line of an outcome. -/
def isStatusLine (line : String) : Bool :=
  statusWords.any fun word => startsWith (statusStart word) line

/-- Whether a line starts like the line of a comment. -/
def isCommentLine (line : String) : Bool := startsWith "        comment: " line

/-- The lines that start like the line of an outcome, each with the line behind it. -/
def statusRows : List String → List (String × Option String)
  | [] => []
  | line :: lines =>
    if isStatusLine line then (line, lines.head?) :: statusRows lines else statusRows lines

/-! ### How lines start -/

theorem startsWith_append (start rest : String) : startsWith start (start ++ rest) = true := by
  rw [startsWith, String.toList_append, List.isPrefixOf_iff_prefix]
  exact List.prefix_append _ _

/-- The words have the same length, so none of them is the start of another one. -/
theorem startsWith_statusStart {word word' : String} (h : word ∈ statusWords)
    (h' : word' ∈ statusWords) (rest : String) :
    startsWith (statusStart word) (statusStart word' ++ rest) = (word == word') := by
  simp only [statusWords, List.mem_cons, List.not_mem_nil, or_false] at h h'
  simp only [startsWith, statusStart, String.toList_append]
  rcases h with rfl | rfl | rfl <;> rcases h' with rfl | rfl | rfl <;> rfl

theorem status_mem (r : Reported) : status r ∈ statusWords := by
  obtain ⟨⟨verdict, found, remark⟩, suppressed⟩ := r
  cases verdict <;> cases suppressed <;> simp [status, statusWords]

theorem statusLine_eq (r : Reported) :
    statusLine r = statusStart (status r) ++ (r.outcome.remark.name ++ (" [" ++
      (r.outcome.remark.category.display ++ ("]" ++ (if r.outcome.remark.description.isEmpty then ""
        else " " ++ r.outcome.remark.description))))) := by
  simp only [statusLine, statusStart, String.append_assoc]

theorem startsWith_start_statusLine (word : String) (h : word ∈ statusWords) (r : Reported) :
    startsWith (statusStart word) (statusLine r) = (word == status r) := by
  rw [statusLine_eq, startsWith_statusStart h (status_mem r)]

/-- The line of an outcome tells how the outcome is counted. -/
theorem startsWith_statusLine (r : Reported) :
    startsWith "  PASS  " (statusLine r) = r.passed ∧
      startsWith "  FAIL  " (statusLine r) = r.failed ∧
      startsWith "  SKIP  " (statusLine r) = r.suppressed := by
  have hpass := startsWith_start_statusLine "PASS" (by decide) r
  have hfail := startsWith_start_statusLine "FAIL" (by decide) r
  have hskip := startsWith_start_statusLine "SKIP" (by decide) r
  refine ⟨hpass.trans ?_, hfail.trans ?_, hskip.trans ?_⟩
  all_goals
    obtain ⟨⟨verdict, found, remark⟩, suppressed⟩ := r
    cases verdict <;> cases suppressed <;> rfl

theorem isStatusLine_statusLine (r : Reported) : isStatusLine (statusLine r) = true := by
  rw [isStatusLine, List.any_eq_true]
  refine ⟨status r, status_mem r, ?_⟩
  rw [startsWith_start_statusLine (status r) (status_mem r), beq_self_eq_true]

theorem isCommentLine_statusLine (r : Reported) : isCommentLine (statusLine r) = false := by
  have hword {word : String} (h : word ∈ statusWords) (rest : String) :
      isCommentLine (statusStart word ++ rest) = false := by
    simp only [statusWords, List.mem_cons, List.not_mem_nil, or_false] at h
    simp only [isCommentLine, startsWith, statusStart, String.toList_append]
    rcases h with rfl | rfl | rfl <;> rfl
  rw [statusLine_eq, hword (status_mem r)]

theorem isStatusLine_comment (text : String) :
    isStatusLine ("        comment: " ++ text) = false := by
  have hword {word : String} (h : word ∈ statusWords) :
      startsWith (statusStart word) ("        comment: " ++ text) = false := by
    simp only [statusWords, List.mem_cons, List.not_mem_nil, or_false] at h
    simp only [startsWith, statusStart, String.toList_append]
    rcases h with rfl | rfl | rfl <;> rfl
  rw [isStatusLine, List.any_eq_false]
  intro word h
  rw [hword h]
  exact Bool.false_ne_true

/-- The line does not begin with a space. -/
def Flush (line : String) : Prop := line.toList.head? ≠ some ' '

instance : DecidablePred Flush := fun _ => inferInstanceAs (Decidable (_ ≠ _))

theorem Flush.startsWith_eq_false {line start : String} (h : Flush line) {rest : List Char}
    (hstart : start.toList = ' ' :: rest) : startsWith start line = false := by
  rw [startsWith, hstart]
  rw [Flush] at h
  cases hline : line.toList with
  | nil => rfl
  | cons c cs =>
    have hc : (' ' == c) = false := by
      rw [hline, List.head?_cons] at h
      rw [beq_eq_false_iff_ne]
      rintro rfl
      exact h rfl
    rw [List.isPrefixOf_cons_cons, hc, Bool.false_and]

theorem Flush.isStatusLine_eq_false {line : String} (h : Flush line) :
    isStatusLine line = false := by
  rw [isStatusLine, List.any_eq_false]
  intro word _
  have hstart : (statusStart word).toList = ' ' :: (' ' :: (word.toList ++ [' ', ' '])) := by
    rw [statusStart, String.toList_append, String.toList_append]
    rfl
  rw [h.startsWith_eq_false hstart]
  exact Bool.false_ne_true

theorem Flush.isCommentLine_eq_false {line : String} (h : Flush line) :
    isCommentLine line = false :=
  h.startsWith_eq_false rfl

theorem flush_append {start : String} (h : Flush start) (hne : start ≠ "") (rest : String) :
    Flush (start ++ rest) := by
  rw [Flush, String.toList_append]
  cases hstart : start.toList with
  | nil => exact absurd (String.toList_eq_nil_iff.mp hstart) hne
  | cons c cs => rwa [Flush, hstart] at h

theorem flush_countLine (s : Checks) : Flush s.countLine := by
  have hdigits : Flush (countText s.passed) :=
    fun h => absurd (isDigit_of_mem_countText (List.mem_of_mem_head? h)) (by decide)
  have hne : countText s.passed ≠ "" := by
    intro h
    have hnil := congrArg String.toList h
    rw [countText, String.toList_ofList] at hnil
    exact Nat.toDigits_ne_nil hnil
  rw [countLine]
  simp only [String.append_assoc]
  exact flush_append hdigits hne _

/-! ### The lines of all outcomes -/

/-- The line of the comment of an outcome, if it is shown. -/
def commentLines (r : Reported) : List String :=
  if r.failed && !r.outcome.remark.comment.isEmpty then
    ["        comment: " ++ r.outcome.remark.comment]
  else []

theorem outcomeLines_eq (r : Reported) : outcomeLines r = statusLine r :: commentLines r := by
  rw [outcomeLines, commentLines]
  split <;> rfl

theorem isStatusLine_of_mem_commentLines {r : Reported} {line : String}
    (h : line ∈ commentLines r) : isStatusLine line = false := by
  rw [commentLines] at h
  split at h
  · rw [List.mem_singleton.mp h]
    exact isStatusLine_comment _
  · exact absurd h List.not_mem_nil

theorem statusRows_append {lines : List String} (h : ∀ line ∈ lines, isStatusLine line = false)
    (behind : List String) : statusRows (lines ++ behind) = statusRows behind := by
  induction lines with
  | nil => rfl
  | cons line lines ih =>
    rw [List.cons_append, statusRows, h line List.mem_cons_self]
    exact ih fun l hl => h l (List.mem_cons_of_mem line hl)

theorem statusRows_outcomeLines (r : Reported) (behind : List String) :
    statusRows (outcomeLines r ++ behind) =
      (statusLine r, (commentLines r ++ behind).head?) :: statusRows behind := by
  rw [outcomeLines_eq, List.cons_append, statusRows, isStatusLine_statusLine, if_pos rfl,
    statusRows_append fun line hline => isStatusLine_of_mem_commentLines hline]

/-- The row is that of the outcome: its line tells how the outcome is counted and carries its name
and category, and the line behind it is a comment, and then that of the outcome, exactly if the
outcome is a failure that counts and has a comment. -/
structure RowOf (r : Reported) (row : String × Option String) : Prop where
  passed : startsWith "  PASS  " row.1 = r.passed
  failed : startsWith "  FAIL  " row.1 = r.failed
  suppressed : startsWith "  SKIP  " row.1 = r.suppressed
  label : ∃ word ∈ statusWords, startsWith
    (statusStart word ++ r.outcome.remark.name ++ " [" ++ r.outcome.remark.category.display ++ "]")
    row.1 = true
  comment : ∀ line, (row.2 = some line ∧ isCommentLine line = true) ↔
    (r.suppressed = false ∧ r.outcome.verdict = .fail ∧ r.outcome.remark.comment ≠ "") ∧
      line = "        comment: " ++ r.outcome.remark.comment

theorem rowOf_statusLine (r : Reported) {behind : List String}
    (hbehind : ∀ line, behind.head? = some line → isCommentLine line = false) :
    RowOf r (statusLine r, (commentLines r ++ behind).head?) where
  passed := (startsWith_statusLine r).1
  failed := (startsWith_statusLine r).2.1
  suppressed := (startsWith_statusLine r).2.2
  label := by
    refine ⟨status r, status_mem r, ?_⟩
    rw [statusLine_eq]
    simp only [← String.append_assoc]
    exact startsWith_append _ _
  comment line := by
    have hshown : (r.failed && !r.outcome.remark.comment.isEmpty) = true ↔
        r.suppressed = false ∧ r.outcome.verdict = .fail ∧ r.outcome.remark.comment ≠ "" := by
      simp [Reported.failed, and_assoc]
    rw [commentLines, ← hshown]
    by_cases h : (r.failed && !r.outcome.remark.comment.isEmpty) = true
    · rw [if_pos h, List.singleton_append, List.head?_cons]
      constructor
      · rintro ⟨hline, -⟩
        exact ⟨h, (Option.some.inj hline).symm⟩
      · rintro ⟨-, rfl⟩
        exact ⟨rfl, startsWith_append _ _⟩
    · rw [if_neg h, List.nil_append]
      constructor
      · rintro ⟨hline, hcomment⟩
        rw [hbehind line hline] at hcomment
        cases hcomment
      · rintro ⟨hshown, -⟩
        exact absurd hshown h

/-- The rows are those of the outcomes, one for each and in their order, if the lines behind the
outcomes do not begin with a space. -/
theorem forall₂_statusRows (reported : List Reported) {behind : List String}
    (hbehind : ∀ line ∈ behind, Flush line) :
    List.Forall₂ RowOf reported (statusRows (reported.flatMap outcomeLines ++ behind)) := by
  induction reported with
  | nil =>
    have hrows := statusRows_append (fun line h => (hbehind line h).isStatusLine_eq_false) []
    rw [List.append_nil] at hrows
    rw [List.flatMap_nil, List.nil_append, hrows]
    exact .nil
  | cons r reported ih =>
    rw [List.flatMap_cons, List.append_assoc, statusRows_outcomeLines]
    refine .cons (rowOf_statusLine r fun line hline => ?_) ih
    -- The line behind the lines of an outcome is that of the next one, or the first of the others.
    cases reported with
    | nil => exact (hbehind line (List.mem_of_mem_head? hline)).isCommentLine_eq_false
    | cons next reported =>
      rw [List.flatMap_cons, outcomeLines_eq, List.cons_append, List.cons_append,
        List.head?_cons] at hline
      rw [← Option.some.inj hline]
      exact isCommentLine_statusLine next

/-! ### The whole table -/

theorem startsWith_of_isStatusLine_eq_false {word line : String} (hword : word ∈ statusWords)
    (h : isStatusLine line = false) : startsWith (statusStart word) line = false := by
  rw [isStatusLine, List.any_eq_false] at h
  exact eq_false_of_ne_true (h word hword)

/-- The lines behind those of the outcomes. -/
def footLines (s : Checks) : List String :=
  if s.checks.isEmpty then ["No checks configured."] else ["", s.countLine]

theorem lines_eq (s : Checks) :
    s.lines = ["Checks: " ++ s.ast, ""] ++ (s.checks.flatMap outcomeLines ++ s.footLines) := by
  rw [lines, footLines]
  cases s.checks with
  | nil => rfl
  | cons r reported => rw [List.append_assoc]; rfl

theorem mem_footLines {s : Checks} {line : String} (h : line ∈ s.footLines) :
    line = "No checks configured." ∨ line = "" ∨ line = s.countLine := by
  rw [footLines] at h
  split at h
  · exact .inl (List.mem_singleton.mp h)
  · exact .inr (by simpa using h)

theorem flush_of_mem_footLines {s : Checks} {line : String} (h : line ∈ s.footLines) :
    Flush line := by
  rcases mem_footLines h with rfl | rfl | rfl
  · decide
  · decide
  · exact flush_countLine s

theorem flush_header {s : Checks} {line : String} (h : line ∈ ["Checks: " ++ s.ast, ""]) :
    Flush line := by
  rcases List.mem_cons.mp h with rfl | h
  · exact flush_append (by decide) (by decide) s.ast
  · rw [List.mem_singleton.mp h]
    decide

theorem statusRows_lines (s : Checks) : List.Forall₂ RowOf s.checks (statusRows s.lines) := by
  rw [lines_eq, statusRows_append fun line h => (flush_header h).isStatusLine_eq_false]
  exact forall₂_statusRows s.checks fun line h => flush_of_mem_footLines h

theorem countP_lines {word : String} (hword : word ∈ statusWords) {counted : Reported → Bool}
    (h : ∀ r, startsWith (statusStart word) (statusLine r) = counted r) (s : Checks) :
    s.lines.countP (startsWith (statusStart word)) = s.checks.countP counted := by
  have hnone {others : List String} (hothers : ∀ line ∈ others, isStatusLine line = false) :
      others.countP (startsWith (statusStart word)) = 0 := by
    rw [List.countP_eq_zero]
    intro line hline
    rw [startsWith_of_isStatusLine_eq_false hword (hothers line hline)]
    exact Bool.false_ne_true
  have houtcomes (reported : List Reported) :
      (reported.flatMap outcomeLines).countP (startsWith (statusStart word)) =
        reported.countP counted := by
    induction reported with
    | nil => rfl
    | cons r reported ih =>
      rw [List.flatMap_cons, List.countP_append, ih, outcomeLines_eq, List.countP_cons,
        hnone fun line hline => isStatusLine_of_mem_commentLines hline, h, List.countP_cons]
      omega
  rw [lines_eq, List.countP_append, List.countP_append, houtcomes,
    hnone fun line hline => (flush_header hline).isStatusLine_eq_false,
    hnone fun line hline => (flush_of_mem_footLines hline).isStatusLine_eq_false]
  omega

theorem oneLine_statusLine {r : Reported} (h : r.outcome.remark.OneLineTexts) :
    OneLine (statusLine r) := by
  have hstatus : OneLine (status r) := by
    have hwords : ∀ word ∈ statusWords, OneLine word := by decide
    exact hwords (status r) (status_mem r)
  have hcategory : OneLine r.outcome.remark.category.display := by
    cases r.outcome.remark.category <;> decide
  have hdescription : OneLine (if r.outcome.remark.description.isEmpty then ""
      else " " ++ r.outcome.remark.description) := by
    split
    · decide
    · exact oneLine_append_iff.mpr ⟨by decide, h.description⟩
  have hblank : OneLine "  " := by decide
  have hopen : OneLine " [" := by decide
  have hclose : OneLine "]" := by decide
  rw [statusLine_eq, statusStart]
  simp only [oneLine_append_iff]
  exact ⟨⟨⟨hblank, hstatus⟩, hblank⟩, h.name, hopen, hcategory, hclose, hdescription⟩

theorem oneLine_of_mem_commentLines {r : Reported} (h : r.outcome.remark.OneLineTexts)
    {line : String} (hline : line ∈ commentLines r) : OneLine line := by
  rw [commentLines] at hline
  split at hline
  · rw [List.mem_singleton.mp hline]
    exact oneLine_append_iff.mpr ⟨by decide, h.comment⟩
  · exact absurd hline List.not_mem_nil

theorem oneLine_of_mem_footLines {s : Checks} {line : String} (h : line ∈ s.footLines) :
    OneLine line := by
  rcases mem_footLines h with rfl | rfl | rfl
  · decide
  · decide
  · have hpassed : OneLine " passed, " := by decide
    have hfailed : OneLine " failed, " := by decide
    have hsuppressed : OneLine " suppressed" := by decide
    simp only [countLine, oneLine_append_iff]
    exact ⟨⟨⟨⟨⟨oneLine_countText _, hpassed⟩, oneLine_countText _⟩, hfailed⟩, oneLine_countText _⟩,
      hsuppressed⟩

/-- The table falls into the lines that it was joined from. -/
theorem linesOf_table {s : Checks} (hast : OneLine s.ast)
    (h : ∀ r ∈ s.checks, r.outcome.remark.OneLineTexts) : linesOf s.table = s.lines := by
  have hne : s.lines ≠ [] := by
    rw [lines_eq]
    exact List.cons_ne_nil _ _
  refine linesOf_joinLines hne fun line hline => ?_
  rw [lines_eq] at hline
  rcases List.mem_append.mp hline with hline | hline
  · rcases List.mem_cons.mp hline with rfl | hline
    · exact oneLine_append_iff.mpr ⟨by decide, hast⟩
    · rw [List.mem_singleton.mp hline]
      decide
  rcases List.mem_append.mp hline with hline | hline
  · obtain ⟨r, hr, hline⟩ := List.mem_flatMap.mp hline
    rw [outcomeLines_eq] at hline
    rcases List.mem_cons.mp hline with rfl | hline
    · exact oneLine_statusLine (h r hr)
    · exact oneLine_of_mem_commentLines (h r hr) hline
  · exact oneLine_of_mem_footLines hline

theorem getLast?_lines {s : Checks} (h : s.checks ≠ []) : s.lines.getLast? = some s.countLine := by
  have hfoot : s.footLines = [""] ++ [s.countLine] := if_neg (by simpa using h)
  rw [lines_eq, hfoot, ← List.append_assoc, ← List.append_assoc, List.getLast?_concat]

/-- Outcomes whose texts look like the lines of outcomes. -/
def disguised : List Reported :=
  [⟨⟨.pass, true, ⟨"  FAIL  a", "", "c", .essential, none⟩⟩, false⟩,
    ⟨⟨.fail, true, ⟨"", "  PASS  ", "  SKIP  ", .actionable, none⟩⟩, false⟩,
    ⟨⟨.fail, false, ⟨"b", "]", "        comment: ", .informative, some ⟨"b", .fail⟩⟩⟩, true⟩]

end Summary.Checks

end CallAudit
