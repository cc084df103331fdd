import CallAudit.Json.Printer
import CallAudit.Proofs.Spelling
import CallAudit.Reading.Stream

/-!
# Reading what was written

The compact text of a value is read as the document of just this value, and nothing is left behind
it. The numbers in the value have to be integers of 64 bits; the text of a double may stand for
another one. A container may be nested as deep as it likes: the depth matters only to readers that
ask for the value of a document.

## Main definitions

* `Json.parts`, `Json.Throughout`: the values directly inside a value, and a property of all values
  in it.
* `Json.Plain`: the values without doubles and without integers that do not fit.
* `Json.depth`: the number of containers nested in one another.
* `Json.document`: the document of a value.

## Main statements

* `Json.ofText_compact`: a reader meets the document of the value that was written.
* `Json.value?_document`: a document has its value, if it is not nested too deep.
* `Json.compact_injective`: values with the same text are the same.
-/

namespace CallAudit

namespace Json

/-- The values directly inside a value. -/
def parts : Json → List Json
  | .array items => items
  | .object members => members.map Prod.snd
  | .null | .bool _ | .number _ | .string _ => []

theorem sizeOf_lt_of_mem_parts {v w : Json} (h : w ∈ v.parts) : sizeOf w < sizeOf v := by
  cases v with
  | array items =>
    change w ∈ items at h
    have := List.sizeOf_lt_of_mem h
    simp only [array.sizeOf_spec]
    omega
  | object members =>
    obtain ⟨⟨key, value⟩, hmem, rfl⟩ := List.mem_map.mp h
    have := List.sizeOf_lt_of_mem hmem
    simp only [object.sizeOf_spec, Prod.mk.sizeOf_spec] at this ⊢
    omega
  | null => simp [parts] at h
  | bool value => simp [parts] at h
  | number value => simp [parts] at h
  | string value => simp [parts] at h

/-- A property that passes from the parts to the value holds of every value. -/
@[elab_as_elim]
theorem parts_induction {motive : Json → Prop}
    (value : ∀ v, (∀ w ∈ v.parts, motive w) → motive v) (v : Json) : motive v :=
  value v fun w hw =>
    have := sizeOf_lt_of_mem_parts hw
    parts_induction value w
termination_by sizeOf v

/-- A property holds of a value and of all values in it. -/
inductive Throughout (P : Json → Prop) : Json → Prop
  | intro {v : Json} (own : P v) (inside : ∀ w ∈ v.parts, Throughout P w) : Throughout P v

theorem Throughout.own {P : Json → Prop} {v : Json} : v.Throughout P → P v
  | .intro own _ => own

theorem Throughout.part {P : Json → Prop} {v w : Json} (hw : w ∈ v.parts) :
    v.Throughout P → w.Throughout P
  | .intro _ inside => inside w hw

/-- A value that is a number is an integer of 64 bits, signed or unsigned. -/
def FitsNumber : Json → Prop
  | .number (.integer i) => -(Nat.pow 2 63 : Nat) ≤ i ∧ i < (Numeral.significandBound : Nat)
  | .number (.double _) => False
  | .null | .bool _ | .string _ | .array _ | .object _ => True

/-- All numbers in the value are integers of 64 bits. -/
def Plain (v : Json) : Prop := v.Throughout FitsNumber

@[simp] theorem plain_null : Json.null.Plain := .intro trivial (by simp [parts])

@[simp] theorem plain_bool (b : Bool) : (Json.bool b).Plain := .intro trivial (by simp [parts])

@[simp] theorem plain_string (s : String) : (Json.string s).Plain :=
  .intro trivial (by simp [parts])

@[simp] theorem plain_array_iff {items : List Json} :
    (Json.array items).Plain ↔ ∀ v ∈ items, v.Plain := by
  refine ⟨fun h v hv => ?_, fun h => .intro trivial h⟩
  have hpart : v ∈ (Json.array items).parts := hv
  exact h.part hpart

@[simp] theorem plain_object_iff {members : List (String × Json)} :
    (Json.object members).Plain ↔ ∀ m ∈ members, m.2.Plain := by
  constructor
  · intro h m hm
    have hpart : m.2 ∈ (Json.object members).parts := List.mem_map_of_mem hm
    exact h.part hpart
  · intro h
    refine .intro trivial fun w hw => ?_
    obtain ⟨m, hm, rfl⟩ := List.mem_map.mp hw
    exact h m hm

mutual

/-- How many containers are nested in one another. -/
def depth : Json → Nat
  | .array items => depthOfItems items + 1
  | .object members => depthOfMembers members + 1
  | .null => 0
  | .bool _ => 0
  | .number _ => 0
  | .string _ => 0
termination_by structural v => v

/-- The greatest depth of the items. -/
def depthOfItems : List Json → Nat
  | [] => 0
  | item :: items => Nat.max (depth item) (depthOfItems items)
termination_by structural items => items

/-- The greatest depth of the members. -/
def depthOfMembers : List (String × Json) → Nat
  | [] => 0
  | (_, value) :: members => Nat.max (depth value) (depthOfMembers members)
termination_by structural members => members

end

theorem depthOfItems_le_iff {items : List Json} {n : Nat} :
    depthOfItems items ≤ n ↔ ∀ v ∈ items, v.depth ≤ n := by
  induction items with
  | nil => simp [depthOfItems]
  | cons item items ih =>
    rw [List.forall_mem_cons, ← ih]
    exact Nat.max_le

theorem depthOfMembers_eq (members : List (String × Json)) :
    depthOfMembers members = depthOfItems (members.map Prod.snd) := by
  induction members with
  | nil => rfl
  | cons member members ih => rw [depthOfMembers, ih, List.map_cons, depthOfItems]

theorem depth_lt_of_mem_parts {v w : Json} (h : w ∈ v.parts) : w.depth < v.depth := by
  have hitems {items : List Json} (hw : w ∈ items) : w.depth ≤ depthOfItems items :=
    depthOfItems_le_iff.mp (Nat.le_refl _) w hw
  cases v with
  | array items => exact Nat.lt_succ_of_le (hitems h)
  | object members =>
    rw [depth, depthOfMembers_eq]
    exact Nat.lt_succ_of_le (hitems h)
  | null => simp [parts] at h
  | bool value => simp [parts] at h
  | number value => simp [parts] at h
  | string value => simp [parts] at h

mutual

/-- The document of a value. -/
def document : Json → Document
  | .null => .null
  | .bool value => .bool value
  | .number value => .number (some value)
  | .string value => .text (some value)
  | .array items => .array (documents items) true
  | .object members => .object (memberDocuments members) true
termination_by structural v => v

/-- The documents of all items. -/
def documents : List Json → List Document
  | [] => []
  | item :: items => document item :: documents items
termination_by structural items => items

/-- The documents of all members. -/
def memberDocuments : List (String × Json) → List (Document × Document)
  | [] => []
  | (key, value) :: members => (.text (some key), document value) :: memberDocuments members
termination_by structural members => members

end

/-! ### Scanning the text of a value -/

section Scanning

open Token

/-- Entries with commas between them are legible if each of them is. -/
theorem legible_entries {α : Type} {tokens : α → List Token} {e : α} {entries : List α}
    (h : ∀ e' ∈ e :: entries, Legible (tokens e')) :
    Legible (tokens e ++ entries.flatMap fun e' => .comma :: tokens e') := by
  induction entries generalizing e with
  | nil =>
    rw [List.flatMap_nil, List.append_nil]
    exact h e List.mem_cons_self
  | cons next entries ih =>
    have hrest := ih fun e' he' => h e' (List.mem_cons_of_mem e he')
    rw [List.flatMap_cons, List.cons_append]
    exact (h e List.mem_cons_self).append (.cons (by simp) hrest)

theorem tokensOfItems_eq_flatMap (items : List Json) :
    tokensOfItems items = items.flatMap fun v => .comma :: v.tokens := by
  induction items with
  | nil => rfl
  | cons item items ih => rw [tokensOfItems, ih, List.flatMap_cons, List.cons_append]

/-- The tokens of a member of an object. -/
def tokensOfMember (member : String × Json) : List Token :=
  .text (some member.1) :: .colon :: member.2.tokens

theorem tokensOfMembers_eq_flatMap (members : List (String × Json)) :
    tokensOfMembers members = members.flatMap fun m => .comma :: tokensOfMember m := by
  induction members with
  | nil => rfl
  | cons member members ih =>
    simp only [tokensOfMembers, ih, tokensOfMember, List.flatMap_cons, List.cons_append]

theorem legible_tokensOfMember {member : String × Json} (h : Legible member.2.tokens) :
    Legible (tokensOfMember member) :=
  .text member.1 (.cons (fun _ => rfl) h)

theorem legible_tokens {v : Json} (h : v.Plain) : Legible v.tokens := by
  induction v using parts_induction with
  | value v ih =>
    have hparts : ∀ w ∈ v.parts, Legible w.tokens := fun w hw => ih w hw (h.part hw)
    cases v with
    | null => exact .cons (fun _ => rfl) .nil
    | bool value => cases value <;> exact .cons (fun _ => rfl) .nil
    | number value =>
      cases value with
      | integer i =>
        have hfits := h.own
        intro ts
        rw [tokens, List.flatMap_singleton]
        exact Scan.foldl_integerText hfits.1 hfits.2
      | double x => exact absurd h.own id
    | string value => exact .text value .nil
    | array items =>
      cases items with
      | nil => exact .cons (fun _ => rfl) (.cons (fun _ => rfl) .nil)
      | cons item items =>
        rw [tokens, tokensOfItems_eq_flatMap]
        exact .append (.cons (fun _ => rfl) (legible_entries hparts))
          (Continuing.cons (by simp) .nil)
    | object members =>
      cases members with
      | nil => exact .cons (fun _ => rfl) (.cons (fun _ => rfl) .nil)
      | cons member members =>
        have hmembers (m : String × Json) (hm : m ∈ member :: members) :
            Legible (tokensOfMember m) :=
          legible_tokensOfMember (hparts m.2 (List.mem_map_of_mem hm))
        rw [tokens, tokensOfMembers_eq_flatMap]
        exact .append (.cons (fun _ => rfl) (legible_entries hmembers))
          (Continuing.cons (by simp) .nil)

end Scanning

/-! ### Assembling the tokens of a value -/

namespace Document

variable {frames : List Frame} {rest : List Token}

/-- Reading on after a complete value. -/
def resume (value : Document) (frames : List Frame) (rest : List Token) : Document × List Token :=
  match settle value frames with
  | none => (value, rest)
  | some frames => assemble .more frames rest

/-- The tokens of the value are read as its document wherever a value is due. -/
def Assembles (v : Json) : Prop :=
  ∀ frames rest, assemble .value frames (v.tokens ++ rest) = resume v.document frames rest

theorem assemble_tokensOfItems {items : List Json} (h : ∀ v ∈ items, Assembles v)
    (before : List Document) :
    assemble .more (.array before :: frames) (tokensOfItems items ++ .closeArray :: rest) =
      resume (.array (before.reverse ++ documents items) true) frames rest := by
  induction items generalizing before with
  | nil =>
    rw [documents, List.append_nil]
    rfl
  | cons item items ih =>
    have hcomma : assemble .more (.array before :: frames)
        (tokensOfItems (item :: items) ++ .closeArray :: rest) =
        assemble .value (.array before :: frames)
          (item.tokens ++ (tokensOfItems items ++ .closeArray :: rest)) := by
      rw [tokensOfItems, List.cons_append, List.append_assoc]
      rfl
    have hafter : resume item.document (.array before :: frames)
        (tokensOfItems items ++ .closeArray :: rest) =
        assemble .more (.array (item.document :: before) :: frames)
          (tokensOfItems items ++ .closeArray :: rest) := rfl
    rw [hcomma, h item List.mem_cons_self, hafter,
      ih (fun v hv => h v (List.mem_cons_of_mem item hv)), documents, List.reverse_cons,
      List.append_assoc, List.singleton_append]

theorem assemble_tokensOfMembers {members : List (String × Json)}
    (h : ∀ m ∈ members, Assembles m.2) (before : List (Document × Document)) :
    assemble .more (.object before :: frames) (tokensOfMembers members ++ .closeObject :: rest) =
      resume (.object (before.reverse ++ memberDocuments members) true) frames rest := by
  induction members generalizing before with
  | nil =>
    rw [memberDocuments, List.append_nil]
    rfl
  | cons member members ih =>
    obtain ⟨key, value⟩ := member
    have hkey : assemble .more (.object before :: frames)
        (tokensOfMembers ((key, value) :: members) ++ .closeObject :: rest) =
        assemble .value (.member before (.text (some key)) :: frames)
          (value.tokens ++ (tokensOfMembers members ++ .closeObject :: rest)) := by
      simp only [tokensOfMembers, List.cons_append, List.append_assoc]
      rfl
    have hafter : resume value.document (.member before (.text (some key)) :: frames)
        (tokensOfMembers members ++ .closeObject :: rest) =
        assemble .more (.object ((.text (some key), value.document) :: before) :: frames)
          (tokensOfMembers members ++ .closeObject :: rest) := rfl
    rw [hkey, h (key, value) List.mem_cons_self, hafter,
      ih (fun m hm => h m (List.mem_cons_of_mem _ hm)), memberDocuments, List.reverse_cons,
      List.append_assoc, List.singleton_append]

/-- No value begins with the end of an array, so the first item is read like any other. -/
theorem assemble_firstItem (v : Json) :
    assemble .firstItem frames (v.tokens ++ rest) = assemble .value frames (v.tokens ++ rest) := by
  cases v with
  | array items => cases items <;> rfl
  | object members => cases members <;> rfl
  | null => rfl
  | bool value => rfl
  | number value => rfl
  | string value => rfl

theorem assembles (v : Json) : Assembles v := by
  induction v using parts_induction with
  | value v ih =>
    intro frames rest
    cases v with
    | null => rfl
    | bool value => rfl
    | number value => rfl
    | string value => rfl
    | array items =>
      cases items with
      | nil => rfl
      | cons item items =>
        -- No comma stands before the first item, so it is read apart from the others.
        have hopen : assemble .value frames ((Json.array (item :: items)).tokens ++ rest) =
            assemble .firstItem (.array [] :: frames)
              (item.tokens ++ (tokensOfItems items ++ .closeArray :: rest)) := by
          simp only [tokens, List.cons_append, List.append_assoc, List.nil_append]
          rfl
        have hafter : resume item.document (.array [] :: frames)
            (tokensOfItems items ++ .closeArray :: rest) =
            assemble .more (.array [item.document] :: frames)
              (tokensOfItems items ++ .closeArray :: rest) := rfl
        rw [hopen, assemble_firstItem, ih item List.mem_cons_self, hafter,
          assemble_tokensOfItems fun v hv => ih v (List.mem_cons_of_mem item hv)]
        rfl
    | object members =>
      cases members with
      | nil => rfl
      | cons member members =>
        obtain ⟨key, value⟩ := member
        have hparts (m : String × Json) (hm : m ∈ (key, value) :: members) : Assembles m.2 :=
          ih m.2 (List.mem_map_of_mem hm)
        have hopen :
            assemble .value frames ((Json.object ((key, value) :: members)).tokens ++ rest) =
            assemble .value (.member [] (.text (some key)) :: frames)
              (value.tokens ++ (tokensOfMembers members ++ .closeObject :: rest)) := by
          simp only [tokens, List.cons_append, List.append_assoc, List.nil_append]
          rfl
        have hafter : resume value.document (.member [] (.text (some key)) :: frames)
            (tokensOfMembers members ++ .closeObject :: rest) =
            assemble .more (.object [(.text (some key), value.document)] :: frames)
              (tokensOfMembers members ++ .closeObject :: rest) := rfl
        rw [hopen, hparts (key, value) List.mem_cons_self, hafter,
          assemble_tokensOfMembers fun m hm => hparts m (List.mem_cons_of_mem _ hm)]
        rfl

theorem ofTokens_tokens (v : Json) : ofTokens v.tokens = (v.document, []) := by
  have h := assembles v [] []
  rwa [List.append_nil] at h

end Document

/-! ### The text and its value -/

theorem ofTokens_compact {v : Json} (h : v.Plain) :
    Document.ofTokens (Token.scan v.compact.toList) = (v.document, []) := by
  rw [compact, String.toList_ofList, (legible_tokens h).scan, Document.ofTokens_tokens]

/-- Whatever is read from the text of a value is read from the document of the value. -/
theorem ofText_compact {α : Type} {v : Json} (h : v.Plain)
    (read : Document → Except Reading.Fault α) :
    Reading.ofText read v.compact = read v.document := by
  rw [Reading.ofText, ofTokens_compact h]
  dsimp only
  cases read v.document <;> rfl

theorem values?_documents {items : List Json} {n : Nat}
    (h : ∀ v ∈ items, v.document.value? n = some v) :
    Document.values? n (documents items) = some items := by
  induction items with
  | nil => rfl
  | cons item items ih =>
    rw [documents, Document.values?, h item List.mem_cons_self,
      ih fun v hv => h v (List.mem_cons_of_mem item hv)]

theorem members?_memberDocuments {members : List (String × Json)} {n : Nat}
    (h : ∀ m ∈ members, m.2.document.value? n = some m.2) :
    Document.members? n (memberDocuments members) = some members := by
  induction members with
  | nil => rfl
  | cons member members ih =>
    have hvalue := h member List.mem_cons_self
    have hrest := ih fun m hm => h m (List.mem_cons_of_mem member hm)
    simp only [memberDocuments, Document.members?, hvalue, hrest]

theorem value?_document {v : Json} {n : Nat} (h : v.depth ≤ n) :
    v.document.value? n = some v := by
  induction v using parts_induction generalizing n with
  | value v ih =>
    have hparts : ∀ w ∈ v.parts, w.document.value? (n - 1) = some w := by
      intro w hw
      have := depth_lt_of_mem_parts hw
      exact ih w hw (by omega)
    cases v with
    | null => rfl
    | bool value => rfl
    | number value => rfl
    | string value => rfl
    | array items =>
      have hn : 0 < n := Nat.lt_of_lt_of_le (Nat.succ_pos _) h
      have hitems : Document.values? (n - 1) (documents items) = some items :=
        values?_documents hparts
      rw [document, Document.value?, if_pos ⟨rfl, hn⟩, hitems, Option.map_some]
    | object members =>
      have hn : 0 < n := Nat.lt_of_lt_of_le (Nat.succ_pos _) h
      rw [document, Document.value?, if_pos ⟨rfl, hn⟩,
        members?_memberDocuments fun m hm => hparts m.2 (List.mem_map_of_mem hm), Option.map_some]

theorem compact_injective {v w : Json} (hv : v.Plain) (hw : w.Plain)
    (h : v.compact = w.compact) : v = w := by
  have hdocument : v.document = w.document := by
    have := ofTokens_compact hv
    rw [h, ofTokens_compact hw] at this
    exact (congrArg Prod.fst this).symm
  -- The values are told from the document at a depth that suffices for both.
  have hvalue : v.document.value? (Nat.max v.depth w.depth) = some v :=
    value?_document (Nat.le_max_left _ _)
  rw [hdocument, value?_document (Nat.le_max_right _ _)] at hvalue
  exact (Option.some.inj hvalue).symm

end Json

end CallAudit
