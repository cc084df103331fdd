import Mathlib.Data.List.Forall2
import CallAudit.Proofs.Layout
import CallAudit.Proofs.TreeText
import CallAudit.Summary.Basic

/-!
# Summaries as values

Rendered as a value, a summary can be told from its text: read again, the text is an object with one
field for each part of the summary, in a fixed order and without any others, and a part that may be
absent has its field exactly if it is there. So no two summaries have the same text.

## Main definitions

* `Json.HasFields`: objects with given fields and no others.
* `Summary.Checks.ShownBy`, `Summary.Detection.ShownBy`: the fields of a summary.
* `Summary.Checks.CountsFit`: the counts are words of 64 bits.

## Main statements

* `Json.HasFields.agree`: two descriptions of the same object.
* `Summary.render_json_faithful`: reading the text of a summary.
-/

namespace CallAudit

/-! ### Descriptions of objects -/

/-- The value is an object that has these fields in this order and no others, each with a value as
required. -/
def Json.HasFields (v : Json) (fields : List (String × (Json → Prop))) : Prop :=
  ∃ members, v = .object members ∧
    List.Forall₂ (fun member field => member.1 = field.1 ∧ field.2 member.2) members fields

/-- A field that is there exactly if there is something for it to show. -/
def optionalField {α : Type} (name : String) (shown : α → Json → Prop) :
    Option α → List (String × (Json → Prop))
  | none => []
  | some a => [(name, shown a)]

theorem Json.hasFields_object {members : List (String × Json)}
    {fields : List (String × (Json → Prop))} :
    (Json.object members).HasFields fields ↔
      List.Forall₂ (fun member field => member.1 = field.1 ∧ field.2 member.2) members fields := by
  simp [HasFields]

/-- Two descriptions of the same object speak of the same fields, and each field is as both
require. -/
theorem Json.HasFields.agree {v : Json} {fields fields' : List (String × (Json → Prop))}
    (h : v.HasFields fields) (h' : v.HasFields fields') :
    List.Forall₂ (fun field field' => field.1 = field'.1 ∧ ∃ w, field.2 w ∧ field'.2 w)
      fields fields' := by
  obtain ⟨members, rfl, h⟩ := h
  rw [hasFields_object] at h'
  induction h generalizing fields' with
  | nil =>
    cases h'
    exact .nil
  | cons hfield _ ih =>
    cases h' with
    | cons hfield' h' =>
      exact .cons ⟨hfield.1.symm.trans hfield'.1, _, hfield.2, hfield'.2⟩ (ih h')

/-! ### The parts of a report -/

/-- The value shows the condition. -/
def Condition.ShownBy (c : Condition) (v : Json) : Prop :=
  v.HasFields [("check", (· = .string c.check)), ("verdict", (· = .string c.verdict.display))]

/-- The value shows the remark. -/
def Remark.ShownBy (r : Remark) (v : Json) : Prop :=
  v.HasFields ([("name", (· = .string r.name)), ("description", (· = .string r.description)),
    ("comment", (· = .string r.comment)), ("category", (· = .string r.category.display))] ++
    optionalField "suppress_if" Condition.ShownBy r.suppressIf)

/-- The value shows the reported outcome. -/
def Reported.ShownBy (r : Reported) (v : Json) : Prop :=
  v.HasFields [("verdict", (· = .string r.outcome.verdict.display)),
    ("found", (· = .bool r.outcome.found)), ("report", r.outcome.remark.ShownBy),
    ("suppressed", (· = .bool r.suppressed))]

theorem Verdict.display_injective : Function.Injective display := by
  rintro ⟨⟩ ⟨⟩ <;> simp [display]

theorem Category.display_injective : Function.Injective display := by
  rintro ⟨⟩ ⟨⟩ <;> simp [display]

namespace Condition

theorem shownBy_json (c : Condition) : c.ShownBy c.json := by
  simp [ShownBy, json, Json.hasFields_object]

theorem eq_of_shownBy {c c' : Condition} {v : Json} (h : c.ShownBy v) (h' : c'.ShownBy v) :
    c = c' := by
  obtain ⟨check, verdict⟩ := c
  obtain ⟨check', verdict'⟩ := c'
  have hfields := Json.HasFields.agree h h'
  simp only [List.forall₂_cons, List.Forall₂.nil, and_true, true_and, exists_eq_left,
    Json.string.injEq, Verdict.display_injective.eq_iff] at hfields
  obtain ⟨rfl, rfl⟩ := hfields
  rfl

end Condition

/-- A condition that may be absent is told from the field that may be absent. -/
theorem eq_of_optionalField {x y : Option Condition} {name : String}
    (h : List.Forall₂ (fun field field' => field.1 = field'.1 ∧ ∃ w, field.2 w ∧ field'.2 w)
      (optionalField name Condition.ShownBy x) (optionalField name Condition.ShownBy y)) :
    x = y := by
  cases x with
  | none =>
    cases y with
    | none => rfl
    | some c' => cases h
  | some c =>
    cases y with
    | none => cases h
    | some c' =>
      obtain ⟨⟨-, w, hc, hc'⟩, -⟩ := List.forall₂_cons.mp h
      rw [Condition.eq_of_shownBy hc hc']

namespace Remark

theorem shownBy_json (r : Remark) : r.ShownBy r.json := by
  cases h : r.suppressIf with
  | none => simp [ShownBy, json, Json.hasFields_object, h, optionalField, optionalMember]
  | some c =>
    simp [ShownBy, json, Json.hasFields_object, h, optionalField, optionalMember, c.shownBy_json]

theorem eq_of_shownBy {r r' : Remark} {v : Json} (h : r.ShownBy v) (h' : r'.ShownBy v) :
    r = r' := by
  obtain ⟨name, description, comment, category, suppressIf⟩ := r
  obtain ⟨name', description', comment', category', suppressIf'⟩ := r'
  have hfields := Json.HasFields.agree h h'
  simp only [List.cons_append, List.nil_append, List.forall₂_cons, true_and, exists_eq_left,
    Json.string.injEq, Category.display_injective.eq_iff] at hfields
  obtain ⟨rfl, rfl, rfl, rfl, hcondition⟩ := hfields
  rw [eq_of_optionalField hcondition]

end Remark

namespace Reported

theorem shownBy_json (r : Reported) : r.ShownBy r.json := by
  simp [ShownBy, json, Outcome.members, Json.hasFields_object, r.outcome.remark.shownBy_json]

theorem eq_of_shownBy {r r' : Reported} {v : Json} (h : r.ShownBy v) (h' : r'.ShownBy v) :
    r = r' := by
  obtain ⟨⟨verdict, found, remark⟩, suppressed⟩ := r
  obtain ⟨⟨verdict', found', remark'⟩, suppressed'⟩ := r'
  have hfields := Json.HasFields.agree h h'
  simp only [List.forall₂_cons, List.Forall₂.nil, and_true, true_and, exists_eq_left,
    Json.string.injEq, Json.bool.injEq, Verdict.display_injective.eq_iff] at hfields
  obtain ⟨rfl, rfl, ⟨w, hremark, hremark'⟩, rfl⟩ := hfields
  rw [Remark.eq_of_shownBy hremark hremark']

end Reported

/-! ### Summaries -/

namespace Summary

/-- The counts are words of 64 bits. -/
structure Checks.CountsFit (s : Checks) : Prop where
  passed : s.passed < Numeral.significandBound
  failed : s.failed < Numeral.significandBound
  suppressed : s.suppressed < Numeral.significandBound

/-- The value shows the summary: its reports in order, and its counts. -/
def Checks.ShownBy (s : Checks) (v : Json) : Prop :=
  v.HasFields [("ast", (· = .string s.ast)),
    ("checks", fun w => ∃ items, w = .array items ∧ List.Forall₂ Reported.ShownBy s.checks items),
    ("passed", (· = .ofNat s.passed)), ("failed", (· = .ofNat s.failed)),
    ("suppressed", (· = .ofNat s.suppressed))]

/-- The value shows the summary. -/
def Detection.ShownBy (s : Detection) (v : Json) : Prop :=
  v.HasFields ([("ast", (· = .string s.ast)), ("called", (· = .string s.called))] ++
    optionalField "calling" (fun caller => (· = .string caller)) s.caller ++
    [("should_call", (· = .bool s.expected)), ("found", (· = .bool s.found)),
      ("verdict", (· = .string s.verdict.display))])

namespace Checks

theorem shownBy_json (s : Checks) : s.ShownBy s.json := by
  have hchecks : List.Forall₂ Reported.ShownBy s.checks (s.checks.map Reported.json) := by
    rw [List.forall₂_map_right_iff, List.forall₂_same]
    exact fun r _ => r.shownBy_json
  simp [ShownBy, json, Json.hasFields_object, hchecks]

theorem eq_of_shownBy {s s' : Checks} {v : Json} (h : s.ShownBy v) (h' : s'.ShownBy v) :
    s = s' := by
  obtain ⟨ast, checks, passed, failed, suppressed⟩ := s
  obtain ⟨ast', checks', passed', failed', suppressed'⟩ := s'
  have hfields := Json.HasFields.agree h h'
  simp only [List.forall₂_cons, List.Forall₂.nil, and_true, true_and, exists_eq_left,
    Json.string.injEq, Json.ofNat, Json.number.injEq, Number.integer.injEq, Int.natCast_inj]
    at hfields
  obtain ⟨rfl, ⟨w, ⟨items, rfl, hitems⟩, items', hsame, hitems'⟩, rfl, rfl, rfl⟩ := hfields
  obtain rfl := Json.array.inj hsame
  have hunique : Relator.LeftUnique Reported.ShownBy := fun _ _ _ => Reported.eq_of_shownBy
  rw [List.left_unique_forall₂' hunique hitems hitems']

end Checks

namespace Detection

theorem shownBy_json (s : Detection) : s.ShownBy s.json := by
  cases h : s.caller with
  | none => simp [ShownBy, json, Json.hasFields_object, h, optionalField, optionalMember]
  | some caller => simp [ShownBy, json, Json.hasFields_object, h, optionalField, optionalMember]

theorem eq_of_shownBy {s s' : Detection} {v : Json} (h : s.ShownBy v) (h' : s'.ShownBy v) :
    s = s' := by
  obtain ⟨ast, called, caller, expected, found, verdict⟩ := s
  obtain ⟨ast', called', caller', expected', found', verdict'⟩ := s'
  have hfields := Json.HasFields.agree h h'
  cases caller with
  | none =>
    cases caller' with
    | none =>
      simp only [optionalField, List.append_nil, List.cons_append, List.nil_append,
        List.forall₂_cons, List.Forall₂.nil, and_true, true_and, exists_eq_left, Json.string.injEq,
        Json.bool.injEq, Verdict.display_injective.eq_iff] at hfields
      obtain ⟨rfl, rfl, rfl, rfl, rfl⟩ := hfields
      rfl
    | some name' => exact absurd hfields.length_eq (by simp [optionalField])
  | some name =>
    cases caller' with
    | none => exact absurd hfields.length_eq (by simp [optionalField])
    | some name' =>
      simp only [optionalField, List.cons_append, List.nil_append, List.forall₂_cons,
        List.Forall₂.nil, and_true, true_and, exists_eq_left, Json.string.injEq,
        Json.bool.injEq, Verdict.display_injective.eq_iff] at hfields
      obtain ⟨rfl, rfl, rfl, rfl, rfl, rfl⟩ := hfields
      rfl

end Detection

/-! ### The text of a summary -/

section Fits

open Json

theorem fitsIn_optionalMember {α : Type} {name : String} {json : α → Json} {x : Option α} {n : Nat}
    (h : ∀ a, FitsIn n (json a)) : ∀ m ∈ optionalMember name json x, FitsIn n m.2 := by
  cases x <;> simp [optionalMember, h]

theorem fitsIn_condition (c : Condition) : FitsIn 1 c.json := by
  refine fitsIn_object_iff.mpr ?_
  simp

theorem fitsIn_remark (r : Remark) : FitsIn 2 r.json := by
  have hcondition : ∀ m ∈ optionalMember "suppress_if" Condition.json r.suppressIf, FitsIn 1 m.2 :=
    fitsIn_optionalMember fitsIn_condition
  exact fitsIn_object_iff.mpr (List.forall_mem_append.mpr ⟨by simp, hcondition⟩)

theorem fitsIn_reported (r : Reported) : FitsIn 3 r.json := by
  refine fitsIn_object_iff.mpr ?_
  simp [Outcome.members, fitsIn_remark]

theorem fitsIn_checks {s : Checks} (h : s.CountsFit) : FitsIn 5 s.json := by
  have hcount {n : Nat} (hn : n < Numeral.significandBound) : FitsIn 4 (.ofNat n) :=
    ⟨Tree.plain_ofNat hn, Nat.zero_le 4⟩
  have hchecks : FitsIn 4 (.array (s.checks.map Reported.json)) := by
    refine fitsIn_array_iff.mpr ?_
    simp [fitsIn_reported]
  refine fitsIn_object_iff.mpr ?_
  simp [hchecks, hcount h.passed, hcount h.failed, hcount h.suppressed]

theorem fitsIn_detection (s : Detection) : FitsIn 1 s.json := by
  have hcaller : ∀ m ∈ optionalMember "calling" .string s.caller, FitsIn 0 m.2 :=
    fitsIn_optionalMember (fitsIn_string 0)
  refine fitsIn_object_iff.mpr (List.forall_mem_append.mpr ⟨?_, by simp⟩)
  exact List.forall_mem_append.mpr ⟨by simp, hcaller⟩

end Fits

/-- If values tell what they show, then so do their texts. -/
theorem eq_of_parse {α : Type} {shown : α → Json → Prop} (hunique : Relator.LeftUnique shown)
    {a a' : α} {text : String} (h : ∃ v, Json.parse text = .ok v ∧ shown a v)
    (h' : ∃ v, Json.parse text = .ok v ∧ shown a' v) : a = a' := by
  obtain ⟨v, hv, ha⟩ := h
  obtain ⟨v', hv', ha'⟩ := h'
  obtain rfl : v = v' := Except.ok.inj (hv.symm.trans hv')
  exact hunique ha ha'

/-- The text of a summary as a value can be read, and the value shows the summary: it has the fields
of the summary and no others, in all its reports as well. So summaries with the same text are the
same. -/
theorem render_json_faithful :
    (∀ s : Checks, s.CountsFit → ∃ v, Json.parse (s.render .json) = .ok v ∧ s.ShownBy v) ∧
    (∀ s : Detection, ∃ v, Json.parse (s.render .json) = .ok v ∧ s.ShownBy v) ∧
    (∀ s s' : Checks, s.CountsFit → s'.CountsFit → s.render .json = s'.render .json → s = s') ∧
    ∀ s s' : Detection, s.render .json = s'.render .json → s = s' := by
  have hchecks (s : Checks) (h : s.CountsFit) :
      ∃ v, Json.parse (s.render .json) = .ok v ∧ s.ShownBy v :=
    ⟨s.json, Json.parse_pretty ((fitsIn_checks h).mono (by decide)), s.shownBy_json⟩
  have hdetection (s : Detection) : ∃ v, Json.parse (s.render .json) = .ok v ∧ s.ShownBy v :=
    ⟨s.json, Json.parse_pretty ((fitsIn_detection s).mono (by decide)), s.shownBy_json⟩
  refine ⟨hchecks, hdetection, fun s s' h h' htext => ?_, fun s s' htext => ?_⟩
  · have hread := hchecks s h
    rw [htext] at hread
    have hunique : Relator.LeftUnique Checks.ShownBy := fun _ _ _ => Checks.eq_of_shownBy
    exact eq_of_parse hunique hread (hchecks s' h')
  · have hread := hdetection s
    rw [htext] at hread
    have hunique : Relator.LeftUnique Detection.ShownBy := fun _ _ _ => Detection.eq_of_shownBy
    exact eq_of_parse hunique hread (hdetection s')

/-- A report with marks, control characters and letters beyond ASCII in it, and the largest
counts. -/
def oddChecks : Checks where
  ast := "a\"b\\c\n\x00\x1f/é😀"
  checks :=
    [⟨⟨.fail, true, ⟨"\t,]", "", r#"{"x": 1}"#, .celebratory, some ⟨"", .pass⟩⟩⟩, true⟩]
  passed := 0
  failed := 18446744073709551615
  suppressed := 10

theorem render_json_faithful_odd :
    let other : Checks := { oddChecks with ast := "" }
    oddChecks.CountsFit ∧ other.CountsFit ∧
      (∃ v, Json.parse (oddChecks.render .json) = .ok v ∧ oddChecks.ShownBy v) ∧
      other.render .json ≠ oddChecks.render .json := by
  intro other
  have hfit : oddChecks.CountsFit := ⟨by decide, by decide, by decide⟩
  have hother : other.CountsFit := ⟨by decide, by decide, by decide⟩
  obtain ⟨hread, -, hsame, -⟩ := render_json_faithful
  refine ⟨hfit, hother, hread oddChecks hfit, fun htext => ?_⟩
  have hast := congrArg Checks.ast (hsame other oddChecks hother hfit htext)
  exact absurd hast (by decide)

end Summary

end CallAudit
