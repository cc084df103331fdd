import CallAudit.Proofs.CheckNames
import CallAudit.Proofs.NamedFields
import CallAudit.Proofs.ReadResult
import CallAudit.Proofs.SignatureText

/-!
# The text of a suite

A suite is written with the signatures of its checks as texts, so it comes back only if each of them
is read from its own text. The signatures of a suite that was read are of this kind, because a
signature that was read is: whatever the text of a suite looked like, with fields left out, null or
given by position, the suite is the same after it was written and read again.

## Main definitions

* `Suite.Legible`: the signatures in a suite are read back, and no name stands twice.

## Main statements

* `Suite.legible_of_ofText`: suites that were read are legible.
* `Suite.ofText_text_of_legible`: legible suites are read back from their texts.
* `Suite.ofText_text_of_ofText`: reading, writing and reading a suite again.
-/

namespace CallAudit

open Reading

/-! ### Documents of written objects -/

namespace Json

variable {α δ : Type} {r : Record Document δ α} {members : List (String × Json)}

theorem documents_eq_map (items : List Json) : documents items = items.map document := by
  induction items with
  | nil => rfl
  | cons item items ih => rw [documents, ih, List.map_cons]

theorem Document.foldlM_addMember (hknown : ∀ m ∈ members, (r.fields.lookup m.1).isSome = true)
    (draft : Record.Draft δ) :
    (memberDocuments members).foldlM (addMember r) draft =
      (members.map fun m => (m.1, m.2.document)).foldlM r.addMember draft := by
  induction members generalizing draft with
  | nil => rfl
  | cons m members ih =>
    have hmember : addMember r draft (.text (some m.1), m.2.document) =
        r.addMember draft (m.1, m.2.document) := by
      simp [addMember, hknown m List.mem_cons_self]
    rw [memberDocuments, List.map_cons, List.foldlM_cons, List.foldlM_cons, hmember]
    congr 1
    funext draft'
    exact ih (fun m' hm => hknown m' (List.mem_cons_of_mem m hm)) draft'

/-- With known names only, a written object is read as a record with its members in order. -/
theorem Document.asRecord_object (hknown : ∀ m ∈ members, (r.fields.lookup m.1).isSome = true) :
    (Json.object members).document.asRecord r =
      r.ofMembers (members.map fun m => (m.1, m.2.document)) := by
  rw [document, asRecord, foldlM_addMember hknown]
  rfl

theorem Document.asOption_of_ne_null {read : Document → Except Fault α} {d : Document} {a : α}
    (hd : d ≠ .null) (h : read d = .ok a) : d.asOption read = .ok (some a) := by
  cases d with
  | null => exact absurd rfl hd
  | _ => simp only [asOption, h, Except.map]

end Json

/-! ### Signatures that are read back -/

/-- The signature is what its own text stands for. -/
def Signature.Legible (sig : Signature) : Prop := ofText sig.display = .ok sig

theorem Signature.legible_of_ofText {s : String} {sig : Signature} (h : ofText s = .ok sig) :
    sig.Legible := by
  obtain ⟨-, init, name, -, hsig⟩ := ofText_eq_ok_iff.mp h
  exact ofText_display_of_clean init name hsig (clean_parts_of_ofText h)

/-- The signatures of the check are read back. -/
def Check.Legible (c : Check) : Prop :=
  (∀ sig ∈ c.called, sig.Legible) ∧ ∀ sig ∈ c.caller, sig.Legible

namespace Suite

/-- The suite can be the suite of a text. -/
structure Legible (suite : Suite) : Prop where
  signatures : ∀ c ∈ suite.checks, c.Legible
  names : (suite.checks.map fun c => c.name).Nodup

/-! ### What is read is legible -/

theorem gives_asSignature (d : Json.Document) : Gives d.asSignature Signature.Legible := by
  rw [Json.Document.asSignature]
  refine Gives.bind Gives.any fun text _ sig hsig => ?_
  exact Signature.legible_of_ofText (mapError_eq_ok_iff.mp hsig)

theorem check_keeps : check.Keeps (fun _ => True)
    (fun draft => (∀ sig ∈ draft.called, sig.Legible) ∧ ∀ sig ∈ draft.caller, sig.Legible)
    Check.Legible where
  blank := by simp [check]
  field := by
    intro f hf d draft _ hdraft
    have hsignature := Json.Document.gives_asOption (gives_asSignature d)
    simp only [check, List.mem_cons, List.not_mem_nil, or_false] at hf
    -- Only the two fields with signatures touch what the property speaks of.
    rcases hf with rfl | rfl | rfl | rfl | rfl | rfl | rfl | rfl
    · exact Gives.map Gives.any fun _ _ => hdraft
    · exact Gives.map Gives.any fun _ _ => hdraft
    · exact Gives.map Gives.any fun _ _ => hdraft
    · exact Gives.map hsignature fun _ hsig => ⟨hsig, hdraft.2⟩
    · exact Gives.map hsignature fun _ hsig => ⟨hdraft.1, hsig⟩
    · exact Gives.map Gives.any fun _ _ => hdraft
    · exact Gives.map Gives.any fun _ _ => hdraft
    · exact Gives.map Gives.any fun _ _ => hdraft
  finish := by
    intro lack draft hdraft
    simp only [check]
    cases draft.name with
    | none => exact Gives.error
    | some name => exact Gives.ok hdraft

theorem suite_keeps : suite.Keeps (fun _ => True) (fun checks => ∀ c ∈ checks, c.Legible)
    fun suite => ∀ c ∈ suite.checks, c.Legible where
  blank := by simp [suite]
  field := by
    intro f hf d checks _ _
    obtain rfl := List.mem_singleton.mp hf
    exact Json.Document.gives_asList (fun item => check_keeps.ofDocument item) d
  finish := fun _ _ hchecks => Gives.ok hchecks

theorem legible_of_decode {s : String} {suite : Suite} (h : decode s = .ok suite) :
    ∀ c ∈ suite.checks, c.Legible := by
  obtain ⟨hread, -⟩ := Reading.ofText_eq_ok_iff.mp h
  exact suite_keeps.ofDocument _ suite hread

theorem legible_of_ofText {origin s : String} {suite : Suite} (h : ofText origin s = .ok suite) :
    suite.Legible := by
  obtain ⟨hdecode, hnames⟩ := ofText_eq_ok_iff.mp h
  exact ⟨legible_of_decode hdecode, hnames⟩

/-! ### What is legible is read back -/

theorem asOption_signature {sig : Option Signature} (h : ∀ s ∈ sig, s.Legible) :
    (Signature.optionJson sig).document.asOption Json.Document.asSignature = .ok sig := by
  cases sig with
  | none => rfl
  | some sig =>
    have hsig : (Json.string sig.display).document.asSignature = .ok sig :=
      mapError_eq_ok_iff.mpr (h sig rfl)
    exact Json.Document.asOption_of_ne_null nofun hsig

theorem asChoice_category (c : Category) :
    (Json.string c.display).document.asChoice categories = .ok c := by
  cases c <;> rfl

theorem asText_document (text : String) : (Json.string text).document.asText = .ok text := rfl

theorem asRecord_condition (c : Condition) : c.json.document.asRecord condition = .ok c := by
  have hverdict : (Json.string c.verdict.display).document.asChoice verdicts = .ok c.verdict := by
    cases c.verdict <;> rfl
  rw [Condition.json, Json.Document.asRecord_object (by simp [condition, List.lookup_cons])]
  exact Record.ofMembers_of_draft
    (Record.foldlM_addMember_cons rfl List.not_mem_nil rfl (asText_document c.check)
      (Record.foldlM_addMember_cons rfl (by simp) rfl hverdict rfl)) rfl

/-- The condition is the last member, and it is left out where there is none. -/
theorem foldlM_suppressIf {seen : List String} (hnew : "suppress_if" ∉ seen) (draft : CheckDraft)
    (c : Option Condition) :
    ∃ seen', ((optionalMember "suppress_if" Condition.json c).map fun m =>
      (m.1, m.2.document)).foldlM check.addMember ({ draft with suppressIf := none }, seen) =
        .ok ({ draft with suppressIf := c }, seen') := by
  cases c with
  | none => exact ⟨seen, rfl⟩
  | some c =>
    have hcondition : (c.json.document.asOption fun d => d.asRecord condition) = .ok (some c) :=
      Json.Document.asOption_of_ne_null nofun (asRecord_condition c)
    exact ⟨_, Record.foldlM_addMember_cons rfl hnew rfl hcondition rfl⟩

theorem asRecord_check {c : Check} (h : c.Legible) : c.json.document.asRecord check = .ok c := by
  have hknown : ∀ m ∈ [("name", Json.string c.name), ("description", .string c.description),
      ("comment", .string c.comment), ("called", Signature.optionJson c.called),
      ("calling", Signature.optionJson c.caller), ("should_call", .bool c.expected),
      ("category", .string c.category.display)] ++
      optionalMember "suppress_if" Condition.json c.suppressIf,
      (check.fields.lookup m.1).isSome = true := by
    cases c.suppressIf <;> simp [check, List.lookup_cons, optionalMember]
  have hexpected : (Json.bool c.expected).document.asBoolean = .ok c.expected := rfl
  have hnew : "suppress_if" ∉ ["category", "should_call", "calling", "called", "comment",
      "description", "name"] := by decide
  obtain ⟨seen, hrest⟩ := foldlM_suppressIf hnew ⟨some c.name, c.description, c.comment, c.called,
    c.caller, c.expected, c.category, none⟩ c.suppressIf
  rw [Check.json, Json.Document.asRecord_object hknown]
  exact Record.ofMembers_of_draft
    (Record.foldlM_addMember_cons rfl List.not_mem_nil rfl (asText_document c.name)
      (Record.foldlM_addMember_cons rfl (by simp) rfl (asText_document c.description)
        (Record.foldlM_addMember_cons rfl (by simp) rfl (asText_document c.comment)
          (Record.foldlM_addMember_cons rfl (by simp) rfl (asOption_signature h.1)
            (Record.foldlM_addMember_cons rfl (by simp) rfl (asOption_signature h.2)
              (Record.foldlM_addMember_cons rfl (by simp) rfl hexpected
                (Record.foldlM_addMember_cons rfl (by simp) rfl (asChoice_category c.category)
                  hrest))))))) rfl

theorem asRecord_suite {suite : Suite} (h : ∀ c ∈ suite.checks, c.Legible) :
    suite.json.document.asRecord Suite.suite = .ok suite := by
  have hitems := mapM_map_ok (f := fun c : Check => c.json.document) (g := id) fun c hc =>
    asRecord_check (h c hc)
  rw [List.map_id] at hitems
  have hchecks : ((Json.array (suite.checks.map Check.json)).document.asList fun item =>
      item.asRecord check) = .ok suite.checks := by
    rw [Json.document, Json.documents_eq_map, List.map_map, Json.Document.asList]
    change (suite.checks.map fun c => c.json.document).mapM _ >>= _ = _
    rw [hitems]
    rfl
  have hsame : ((Json.array (suite.checks.map Check.json)).document.asList fun item =>
      item.asRecord check) = Except.map id (.ok suite.checks) := hchecks
  rw [json, Json.Document.asRecord_object (by simp [Suite.suite])]
  exact Record.ofMembers_of_draft
    (Record.foldlM_addMember_cons rfl List.not_mem_nil hsame rfl rfl) rfl

theorem plain_condition (c : Condition) : c.json.Plain := by
  simp [Condition.json]

theorem plain_optionJson (sig : Option Signature) : (Signature.optionJson sig).Plain := by
  cases sig <;> simp [Signature.optionJson]

theorem plain_check (c : Check) : c.json.Plain := by
  have hcondition : ∀ m ∈ optionalMember "suppress_if" Condition.json c.suppressIf, m.2.Plain := by
    cases c.suppressIf <;> simp [optionalMember, plain_condition]
  rw [Check.json, Json.plain_object_iff]
  simpa [plain_optionJson] using hcondition

theorem plain_json (suite : Suite) : suite.json.Plain := by
  simp [json, plain_check]

theorem ofText_text_of_legible {suite : Suite} (h : suite.Legible) (origin : String) :
    ofText origin suite.text = .ok suite := by
  refine ofText_eq_ok_iff.mpr ⟨?_, h.names⟩
  rw [decode, text, Json.ofText_compact (plain_json suite)]
  exact asRecord_suite h.signatures

/-- A suite that was read is read again from its own text, whatever it was read from. -/
theorem ofText_text_of_ofText {origin s : String} {suite : Suite}
    (h : ofText origin s = .ok suite) :
    ofText origin suite.text = .ok suite := by
  have hlegible := legible_of_ofText h
  exact ofText_text_of_legible hlegible origin

/-- A text with an unknown field, a check given by position, a signature with blanks in it, and
fields left out. -/
def unevenText : String :=
  r#"{"extra":[],"checks":[["a","","",null," Foo . _ "],"# ++
    r#"{"name":"b\n","suppress_if":{"verdict":"fail","check":"a"}}]}"#

def unevenSuite : Suite where
  checks :=
    [{ name := "a", description := "", comment := "", category := .actionable, suppressIf := none,
       called := none, caller := some (.qualified ⟨"Foo", []⟩ "_"), expected := true },
      { name := "b\n", description := "", comment := "", category := .actionable,
        suppressIf := some ⟨"a", .fail⟩, called := none, caller := none, expected := true }]

theorem ofText_text_uneven :
    ofText "<inline>" unevenText = .ok unevenSuite ∧ unevenSuite.text ≠ unevenText ∧
      ofText "<inline>" unevenSuite.text = .ok unevenSuite := by
  have hread : ofText "<inline>" unevenText = .ok unevenSuite := by decide +kernel
  exact ⟨hread, by decide +kernel, ofText_text_of_ofText hread⟩

end Suite

end CallAudit
