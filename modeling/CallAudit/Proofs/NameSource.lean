import Mathlib.Logic.Relation
import CallAudit.Proofs.NamedFields
import CallAudit.Proofs.ReadResult
import CallAudit.Proofs.SignatureText
import CallAudit.Search.Walk
import CallAudit.Tree.Reader

/-!
# Where module names come from

Every module name in a tree that was read stands somewhere in the text, as a dotted text or as a
list of segments. A name that was written as a text is the name that its dotted text stands for. A
list of segments is taken as it is, as long as no segment is empty: a segment with a dot in it, or
with blanks around it, makes a name that no text stands for.

## Main definitions

* `ModuleName.Canonical`: a name is what its dotted text stands for.
* `Tree.Mentions`: a module name stands in a tree.
* `Json.Within`: a value stands in another one.

## Main statements

* `ModuleName.canonical_iff`: canonical names are made of clean segments.
* `Tree.Reader.node_namesIn`: each module name of a tree is read from a part of the value.
* `Json.Document.exists_value_of_asTagged`: the root of a tree has a value.
* `Tree.mentions_ofText`: how the module names of a tree were written, and which are canonical.
-/

namespace CallAudit

open Reading

/-! ### Canonical names -/

namespace ModuleName

/-- The name is what its dotted text stands for. -/
def Canonical (m : ModuleName) : Prop := ofText m.display = .ok m

theorem clean_segments_of_ofText {s : String} {m : ModuleName} (h : ofText s = .ok m) :
    ∀ segment ∈ m.segments, Text.Clean segment := by
  obtain ⟨hempty, hsegments⟩ := ofChars_eq_ok_iff.mp h
  rw [hsegments]
  intro segment hsegment
  exact Text.clean_of_mem_pieces hsegment fun hnil => hempty (hnil ▸ hsegment)

theorem canonical_iff {m : ModuleName} :
    m.Canonical ↔ ∀ segment ∈ m.segments, Text.Clean segment := by
  refine ⟨clean_segments_of_ofText, fun hclean => ?_⟩
  have hne : m.segments ≠ [] := List.cons_ne_nil m.first m.rest
  have hpieces : Text.pieces m.display.toList = m.segments := Text.pieces_intercalate hne hclean
  rw [Canonical, ofText, ofChars_eq_ok_iff, hpieces]
  exact ⟨fun hempty => (hclean "" hempty).ne_empty rfl, rfl⟩

theorem ofSegments_eq_ok_iff {segments : List String} {m : ModuleName} :
    ofSegments segments = .ok m ↔ m.segments = segments ∧ "" ∉ segments := by
  have hempty : segments.any String.isEmpty = true ↔ "" ∈ segments := by
    simp [List.any_eq_true, String.isEmpty_iff]
  rw [ofSegments, ← ofSegments?_eq_some_iff]
  by_cases hmem : "" ∈ segments
  · simp [hempty.mpr hmem, hmem]
  · rw [if_neg fun h => hmem (hempty.mp h)]
    cases ofSegments? segments with
    | none => simp
    | some m' => simp [hmem]

end ModuleName

/-! ### Names in values -/

namespace Json

/-- The value is the other one, or stands in it at some depth. -/
def Within (w v : Json) : Prop := Relation.ReflTransGen (fun outer inner => inner ∈ outer.parts) v w

theorem eq_map_of_texts? {items : List Json} {texts : List String} (h : texts? items = some texts) :
    items = texts.map .string := by
  induction items generalizing texts with
  | nil =>
    obtain rfl := Option.some.inj h
    rfl
  | cons item items ih =>
    cases item with
    | string value =>
      obtain ⟨rest, hrest, rfl⟩ := Option.map_eq_some_iff.mp h
      rw [List.map_cons, ← ih hrest]
    | _ => cases h

/-- A module name is read from a text that stands for it, or from the list of its segments. -/
theorem asModuleName_eq_ok_iff {v : Json} {m : ModuleName} :
    v.asModuleName = .ok m ↔
      (∃ text, v = .string text ∧ ModuleName.ofText text = .ok m) ∨
        (v = m.json ∧ "" ∉ m.segments) := by
  constructor
  · intro h
    cases v with
    | string text => exact Or.inl ⟨text, rfl, mapError_eq_ok_iff.mp h⟩
    | array items =>
      rw [asModuleName] at h
      cases htexts : texts? items with
      | none =>
        rw [htexts] at h
        cases h
      | some texts =>
        rw [htexts] at h
        obtain ⟨rfl, hfilled⟩ := ModuleName.ofSegments_eq_ok_iff.mp (mapError_eq_ok_iff.mp h)
        exact Or.inr ⟨congrArg Json.array (eq_map_of_texts? htexts), hfilled⟩
    | _ => cases h
  · rintro (⟨text, rfl, hread⟩ | ⟨rfl, hfilled⟩)
    · exact mapError_eq_ok_iff.mpr hread
    · exact asModuleName_json hfilled

end Json

/-! ### Names in trees -/

/-- The module names of a declaration. -/
def Declaration.moduleNames : Declaration → List ModuleName
  | .importing path _ group | .aliasing path _ group => path :: group

/-- The module names of a callee. -/
def Callee.moduleNames : Callee → List ModuleName
  | .ofModule module _ => [module]
  | .bare _ | .ofAtom _ _ => []

namespace Tree

/-- The module names at the root of a tree. -/
def rootNames : Tree → List ModuleName
  | .call callee _ => callee.moduleNames
  | .declare declaration => declaration.moduleNames
  | .callOn _ _ _ | .define _ _ _ _ | .head _ _ _ | .var _ | .literal _ | .other _ _ => []

/-- The module name stands somewhere in the tree. -/
inductive Mentions (m : ModuleName) : Tree → Prop
  | root {t : Tree} (h : m ∈ t.rootNames) : Mentions m t
  | child {t u : Tree} (hu : u ∈ t.children) (h : Mentions m u) : Mentions m t

/-- All module names in the tree have the property. -/
def NamesIn (S : ModuleName → Prop) (t : Tree) : Prop := ∀ m, t.Mentions m → S m

variable {S : ModuleName → Prop}

theorem NamesIn.intro {t : Tree} (hroot : ∀ m ∈ t.rootNames, S m)
    (hchildren : ∀ u ∈ t.children, u.NamesIn S) : t.NamesIn S := by
  intro m hm
  cases hm with
  | root h => exact hroot m h
  | child hu h => exact hchildren _ hu m h

theorem NamesIn.of_children {t : Tree} (hroot : t.rootNames = [])
    (hchildren : ∀ u ∈ t.children, u.NamesIn S) : t.NamesIn S := by
  refine .intro (fun m hm => ?_) hchildren
  rw [hroot] at hm
  exact absurd hm List.not_mem_nil

end Tree

/-! ### Readers of nodes -/

namespace Tree.Reader

/-- All module names in the receiver have the property. -/
def Receiver.NamesIn (S : ModuleName → Prop) : Receiver → Prop
  | .atom _ => True
  | .module name => S name
  | .computed tree => tree.NamesIn S

/-- All module names in the target have the property. -/
def Target.NamesIn (S : ModuleName → Prop) : Target → Prop
  | .bare _ => True
  | .qualified receiver _ => receiver.NamesIn S

/-- The property `Q` of values passes to their parts, and a value with it gives only module names
with the property `S`, by itself and through `sub`. -/
structure Source (sub : Json → Except Fault Tree) (Q : Json → Prop) (S : ModuleName → Prop) :
    Prop where
  part : ∀ v, Q v → ∀ w ∈ v.parts, Q w
  name : ∀ v, Q v → Gives v.asModuleName S
  tree : ∀ v, Q v → Gives (sub v) (NamesIn S)

variable {sub : Json → Except Fault Tree} {Q : Json → Prop} {S : ModuleName → Prop}

theorem Target.namesIn_call {target : Target} {args : List Tree} (htarget : target.NamesIn S)
    (hargs : ∀ u ∈ args, u.NamesIn S) : (target.call args).NamesIn S := by
  cases target with
  | bare name => exact .of_children rfl hargs
  | qualified receiver name =>
    cases receiver with
    | atom atom => exact .of_children rfl hargs
    | module module =>
      refine .intro (fun m hm => ?_) hargs
      obtain rfl := List.mem_singleton.mp hm
      exact htarget
    | computed tree =>
      refine .of_children rfl fun u hu => ?_
      rcases List.mem_cons.mp hu with rfl | hu
      · exact htarget
      · exact hargs u hu

theorem named_keeps {α : Type} {R : α → Prop} (title field : String) (make : String → α)
    (h : ∀ name, R (make name)) :
    (named title field make).Keeps Q (fun slot => ∀ name ∈ slot, True) R :=
  .of_slot rfl (fun _ _ _ _ _ => Gives.mono Gives.any fun _ _ _ _ => trivial)
    (fun _ => ⟨_, rfl⟩) fun _ name _ => Gives.ok (h name)

namespace Source

theorem moduleReceiver_keeps (h : Source sub Q S) :
    moduleReceiver.Keeps Q (fun slot => ∀ m ∈ slot, S m) (Receiver.NamesIn S) := by
  refine .of_slot rfl (fun f hf v draft hv => ?_) (fun _ => ⟨_, rfl⟩) fun _ m hm => Gives.ok hm
  obtain rfl := List.mem_singleton.mp hf
  exact Gives.mapSome (h.name v hv)

theorem computedReceiver_keeps (h : Source sub Q S) :
    (computedReceiver sub).Keeps Q (fun slot => ∀ t ∈ slot, t.NamesIn S) (Receiver.NamesIn S) := by
  refine .of_slot rfl (fun f hf v draft hv => ?_) (fun _ => ⟨_, rfl⟩) fun _ t ht => Gives.ok ht
  obtain rfl := List.mem_singleton.mp hf
  exact Gives.mapSome (h.tree v hv)

theorem gives_receiver (h : Source sub Q S) {v : Json} (hv : Q v) :
    Gives (receiver sub v) (Receiver.NamesIn S) := by
  refine Json.gives_bind_asTagged (h.part v hv) fun option hoption fields hvalues => ?_
  simp only [receivers, List.mem_cons, List.not_mem_nil, or_false] at hoption
  rcases hoption with rfl | rfl | rfl
  · exact (named_keeps _ _ _ fun _ => trivial).ofFields hvalues
  · exact h.moduleReceiver_keeps.ofFields hvalues
  · exact h.computedReceiver_keeps.ofFields hvalues

theorem qualifiedTarget_keeps (h : Source sub Q S) :
    (qualifiedTarget sub).Keeps Q (fun draft => ∀ r ∈ draft.1, r.NamesIn S)
      (Target.NamesIn S) where
  blank := nofun
  field := by
    intro f hf v draft hv hdraft
    simp only [qualifiedTarget, List.mem_cons, List.not_mem_nil, or_false] at hf
    rcases hf with rfl | rfl
    · exact Gives.map (h.gives_receiver hv) fun r hr => by simpa using hr
    · exact Gives.map Gives.any fun _ _ => hdraft
  finish := by
    intro lack draft hdraft
    obtain ⟨receiver, name⟩ := draft
    cases receiver with
    | none => exact Gives.error
    | some receiver =>
      cases name with
      | none => exact Gives.error
      | some name => exact Gives.ok (hdraft receiver rfl)

theorem gives_target (h : Source sub Q S) {v : Json} (hv : Q v) :
    Gives (target sub v) (Target.NamesIn S) := by
  refine Json.gives_bind_asTagged (h.part v hv) fun option hoption fields hvalues => ?_
  simp only [targets, List.mem_cons, List.not_mem_nil, or_false] at hoption
  rcases hoption with rfl | rfl
  · exact (named_keeps _ _ _ fun _ => trivial).ofFields hvalues
  · exact h.qualifiedTarget_keeps.ofFields hvalues

theorem gives_trees (h : Source sub Q S) {v : Json} (hv : Q v) :
    Gives (v.asList sub) fun ts => ∀ u ∈ ts, u.NamesIn S :=
  Json.gives_asList fun w hw => h.tree w (h.part v hv w hw)

theorem call_keeps (h : Source sub Q S) :
    (Reader.call sub).Keeps Q
      (fun draft => (∀ target ∈ draft.1, target.NamesIn S) ∧ ∀ u ∈ draft.2, u.NamesIn S)
      (NamesIn S) where
  blank := ⟨nofun, nofun⟩
  field := by
    intro f hf v draft hv hdraft
    simp only [Reader.call, List.mem_cons, List.not_mem_nil, or_false] at hf
    rcases hf with rfl | rfl
    · exact Gives.map (h.gives_target hv) fun target ht => ⟨by simpa using ht, hdraft.2⟩
    · exact Gives.map (h.gives_trees hv) fun args hargs => ⟨hdraft.1, hargs⟩
  finish := by
    intro lack draft hdraft
    obtain ⟨target, args⟩ := draft
    cases target with
    | none => exact Gives.error
    | some target => exact Gives.ok (Target.namesIn_call (hdraft.1 target rfl) hdraft.2)

theorem definition_keeps (h : Source sub Q S) :
    (definition sub).Keeps Q
      (fun draft => (∀ u ∈ draft.params, u.NamesIn S) ∧ ∀ ts ∈ draft.body, ∀ u ∈ ts, u.NamesIn S)
      (NamesIn S) where
  blank := ⟨nofun, nofun⟩
  field := by
    intro f hf v draft hv hdraft
    simp only [definition, List.mem_cons, List.not_mem_nil, or_false] at hf
    rcases hf with rfl | rfl | rfl | rfl
    · exact Gives.map Gives.any fun _ _ => hdraft
    · exact Gives.map Gives.any fun _ _ => hdraft
    · exact Gives.map (h.gives_trees hv) fun params hparams => ⟨hparams, hdraft.2⟩
    · exact Gives.map (Json.gives_asOption (h.gives_trees hv)) fun body hbody =>
        ⟨hdraft.1, hbody⟩
  finish := by
    intro lack draft hdraft
    obtain ⟨visibility, name, params, body⟩ := draft
    obtain ⟨hparams, hbody⟩ := hdraft
    cases visibility with
    | none => exact Gives.error
    | some visibility =>
      cases name with
      | none => exact Gives.error
      | some name =>
        cases body with
        | none => exact Gives.ok (.of_children rfl hparams)
        | some body =>
          refine Gives.ok (.of_children rfl fun u hu => ?_)
          rcases List.mem_append.mp hu with hu | hu
          · exact hparams u hu
          · exact hbody body rfl u hu

theorem declaration_keeps (h : Source sub Q S) {α : Type} (title field : String)
    (detail : Json → Except Fault α) {make : ModuleName → Option α → List ModuleName → Declaration}
    (hmake : ∀ path detail group, (make path detail group).moduleNames = path :: group) :
    (declaration title field detail make).Keeps Q
      (fun draft => (∀ m ∈ draft.path, S m) ∧ ∀ m ∈ draft.group, S m) (NamesIn S) where
  blank := ⟨nofun, nofun⟩
  field := by
    intro f hf v draft hv hdraft
    simp only [declaration, List.mem_cons, List.not_mem_nil, or_false] at hf
    rcases hf with rfl | rfl | rfl
    · exact Gives.map (h.name v hv) fun path hpath => ⟨by simpa using hpath, hdraft.2⟩
    · exact Gives.map Gives.any fun _ _ => hdraft
    · have hgroup : Gives (v.asList Json.asModuleName) fun group => ∀ m ∈ group, S m :=
        Json.gives_asList fun w hw => h.name w (h.part v hv w hw)
      exact Gives.map hgroup fun group hgroup => ⟨hdraft.1, hgroup⟩
  finish := by
    intro lack draft hdraft
    obtain ⟨path, detail, group⟩ := draft
    cases path with
    | none => exact Gives.error
    | some path =>
      refine Gives.ok (.intro (fun m hm => ?_) nofun)
      rw [rootNames, hmake] at hm
      rcases List.mem_cons.mp hm with rfl | hm
      · exact hdraft.1 m rfl
      · exact hdraft.2 m hm

theorem other_keeps (h : Source sub Q S) :
    (other sub).Keeps Q (fun draft => ∀ u ∈ draft.2, u.NamesIn S) (NamesIn S) where
  blank := nofun
  field := by
    intro f hf v draft hv hdraft
    simp only [other, List.mem_cons, List.not_mem_nil, or_false] at hf
    rcases hf with rfl | rfl
    · exact Gives.map Gives.any fun _ _ => hdraft
    · exact Gives.map (h.gives_trees hv) fun children hchildren => hchildren
  finish := fun _ _ hdraft => Gives.ok (.of_children rfl hdraft)

theorem gives_ofFields (h : Source sub Q S) (kind : Kind) {fields : Json.Fields}
    (hvalues : ∀ v ∈ fields.values, Q v) : Gives (ofFields sub kind fields) (NamesIn S) := by
  have hleaf {t : Tree} (hroot : t.rootNames = []) (hnone : t.children = []) : t.NamesIn S :=
    .of_children hroot (by simp [hnone])
  cases kind with
  | call => exact h.call_keeps.ofFields hvalues
  | definition => exact h.definition_keeps.ofFields hvalues
  | importing => exact (h.declaration_keeps _ _ _ fun _ _ _ => rfl).ofFields hvalues
  | aliasing => exact (h.declaration_keeps _ _ _ fun _ _ _ => rfl).ofFields hvalues
  | var => exact (named_keeps _ _ _ fun _ => hleaf rfl rfl).ofFields hvalues
  | literal =>
    have hliteral : literal.Keeps Q (fun slot => ∀ value ∈ slot, True) (NamesIn S) :=
      .of_slot rfl (fun _ _ _ _ _ => Gives.mono Gives.any fun _ _ _ _ => trivial)
        (fun _ => ⟨_, rfl⟩) fun _ value _ => Gives.ok (hleaf rfl rfl)
    exact hliteral.ofFields hvalues
  | other => exact h.other_keeps.ofFields hvalues

end Source

/-- Where the parts of a value give only names with a property, there are no other names in its
tree. -/
theorem node_namesIn (hpart : ∀ v, Q v → ∀ w ∈ v.parts, Q w)
    (hname : ∀ v, Q v → Gives v.asModuleName S) (n : Nat) :
    ∀ v, Q v → Gives (node n v) (NamesIn S) := by
  -- The bound on the depth goes down at each node, so `ih` is about the reader of its children.
  induction n with
  | zero => exact fun _ _ => Gives.error
  | succ n ih =>
    intro v hv
    have hsource : Source (node n) Q S := ⟨hpart, hname, ih⟩
    exact Json.gives_bind_asTagged (hpart v hv) fun option _ fields hvalues =>
      hsource.gives_ofFields option.2 hvalues

end Tree.Reader

/-! ### The root -/

namespace Json.Document

variable {α : Type} {tag : String} {options : List (String × α)} {depth : Nat}

theorem asValue_eq_ok_iff {d : Document} {v : Json} :
    d.asValue depth = .ok v ↔ d.value? depth = some v := by
  rw [asValue]
  cases d.value? depth <;> simp

theorem exists_text_of_asVariant {d : Document} {a : α} (h : d.asVariant options = .ok a) :
    ∃ name, d = .text (some name) ∧ choose options name = .ok a := by
  cases d with
  | text value =>
    cases value with
    | none => cases h
    | some name => exact ⟨name, rfl, h⟩
  | _ => cases h

/-- A member that goes into the draft has a value, which goes into the draft as well. -/
theorem exists_value_of_addTagged {draft draft' : TagDraft α} {key value : Document}
    (h : addTagged depth tag options draft (key, value) = .ok draft') :
    ∃ name v, key = .text (some name) ∧ value.value? depth = some v ∧
      Json.addTagged tag options draft (name, v) = .ok draft' := by
  rw [addTagged] at h
  split at h
  · rename_i name hkey
    refine ⟨name, ?_⟩
    -- The tag is looked up before it has a value; all other members are taken by their values.
    by_cases htag : name = tag
    · rw [if_pos htag] at h
      cases hdraft : draft.1 with
      | some a =>
        rw [hdraft] at h
        cases h
      | none =>
        rw [hdraft] at h
        obtain ⟨a, ha, rfl⟩ := exists_of_map_eq_ok h
        obtain ⟨text, rfl, hchoose⟩ := exists_text_of_asVariant ha
        refine ⟨.string text, hkey, rfl, ?_⟩
        simp only [Json.addTagged, if_pos htag, hdraft, asTag, hchoose, Except.map]
    · rw [if_neg htag] at h
      obtain ⟨v, hv, rfl⟩ := exists_of_map_eq_ok h
      refine ⟨v, hkey, asValue_eq_ok_iff.mp hv, ?_⟩
      simp only [Json.addTagged, if_neg htag]
  · cases h

theorem exists_members_of_foldlM {members : List (Document × Document)} {draft draft' : TagDraft α}
    (h : members.foldlM (addTagged depth tag options) draft = .ok draft') :
    ∃ ms, members? depth members = some ms ∧
      ms.foldlM (Json.addTagged tag options) draft = .ok draft' := by
  induction members generalizing draft with
  | nil => exact ⟨[], rfl, h⟩
  | cons member members ih =>
    obtain ⟨key, value⟩ := member
    rw [List.foldlM_cons] at h
    obtain ⟨next, hnext, hrest⟩ := exists_of_bind_eq_ok h
    obtain ⟨name, v, rfl, hv, hadd⟩ := exists_value_of_addTagged hnext
    obtain ⟨ms, hms, hfold⟩ := ih hrest
    refine ⟨(name, v) :: ms, ?_, ?_⟩
    · simp only [members?, hv, hms]
    · rw [List.foldlM_cons, hadd]
      exact hfold

theorem values?_of_mapM {items : List Document} {values : List Json}
    (h : items.mapM (asValue depth) = .ok values) : values? depth items = some values := by
  induction items generalizing values with
  | nil =>
    obtain rfl := Except.ok.inj h
    rfl
  | cons item items ih =>
    rw [List.mapM_cons] at h
    obtain ⟨v, hv, hrest⟩ := exists_of_bind_eq_ok h
    obtain ⟨vs, hvs, hvalues⟩ := exists_of_bind_eq_ok hrest
    obtain rfl := Except.ok.inj hvalues
    rw [values?, asValue_eq_ok_iff.mp hv, ih hvs]

/-- A document that is read as a tagged variant has a value, which is read as the same variant. -/
theorem exists_value_of_asTagged {family : String} {d : Document} {x : α × Fields}
    (hdepth : 0 < depth) (h : d.asTagged depth tag family options = .ok x) :
    ∃ v, d.value? depth = some v ∧ v.asTagged tag family options = .ok x := by
  cases d with
  | object members closed =>
    obtain ⟨draft, hdraft, hfinish⟩ := exists_of_bind_eq_ok h
    obtain ⟨ms, hms, hfold⟩ := exists_members_of_foldlM hdraft
    cases closed with
    | false => cases hfinish
    | true =>
      refine ⟨.object ms, ?_, ?_⟩
      · rw [value?, if_pos ⟨rfl, hdepth⟩, hms, Option.map_some]
      · rw [Json.asTagged, hfold]
        exact hfinish
  | array items closed =>
    cases items with
    | nil => cases h
    | cons first items =>
      obtain ⟨variant, hvariant, hrest⟩ := exists_of_bind_eq_ok h
      obtain ⟨values, hvalues, hfinish⟩ := exists_of_bind_eq_ok hrest
      obtain ⟨text, rfl, hchoose⟩ := exists_text_of_asVariant hvariant
      cases closed with
      | false => cases hfinish
      | true =>
        obtain rfl := Except.ok.inj hfinish
        refine ⟨.array (.string text :: values), ?_, ?_⟩
        · rw [value?, if_pos ⟨rfl, hdepth⟩, values?, values?_of_mapM hvalues]
          rfl
        · simp only [Json.asTagged, asTag, hchoose, Except.map]
  | _ => cases h

end Json.Document

namespace Tree

/-- A text that holds a tree holds a value, which is the tree. -/
theorem exists_value_of_ofText {s : String} {t : Tree} (h : Tree.ofText s = .ok t) :
    ∃ v n, Reading.ofText (Json.Document.asValue Json.greatestDepth) s = .ok v ∧
      Reader.node n v = .ok t := by
  obtain ⟨hroot, hbehind⟩ := ofText_eq_ok_iff.mp h
  obtain ⟨⟨kind, fields⟩, htagged, hfields⟩ := exists_of_bind_eq_ok hroot
  obtain ⟨v, hv, hvalue⟩ := Json.Document.exists_value_of_asTagged (by decide) htagged
  refine ⟨v, Json.greatestDepth + 1,
    ofText_eq_ok_iff.mpr ⟨Json.Document.asValue_eq_ok_iff.mpr hv, hbehind⟩, ?_⟩
  rw [Reader.node, hvalue]
  exact hfields

/-- Each module name in a tree that was read stands in the value of the text. If it stands there as
a dotted text, it is canonical; otherwise it stands there as the list of its segments, none of which
is empty, and is canonical exactly if all of them are clean. -/
theorem mentions_ofText {s : String} {t : Tree} (h : Tree.ofText s = .ok t) {m : ModuleName}
    (hm : t.Mentions m) :
    ∃ v w, Reading.ofText (Json.Document.asValue Json.greatestDepth) s = .ok v ∧ w.Within v ∧
      ((∃ text, w = .string text ∧ ModuleName.ofText text = .ok m ∧ m.Canonical) ∨
        (w = m.json ∧ "" ∉ m.segments ∧
          (m.Canonical ↔ ∀ segment ∈ m.segments, Text.Clean segment))) := by
  obtain ⟨v, n, hv, hnode⟩ := exists_value_of_ofText h
  -- `Q` is to stand in the value of the text, and `S` to be read from something that stands there.
  have hsource := Reader.node_namesIn (Q := fun w => w.Within v)
    (S := fun m => ∃ w, w.Within v ∧ w.asModuleName = .ok m) (fun w hw x hx => hw.tail hx)
    (fun w hw m hm => ⟨w, hw, hm⟩) n v .refl
  obtain ⟨w, hw, hread⟩ := hsource t hnode m hm
  refine ⟨v, w, hv, hw, ?_⟩
  rcases Json.asModuleName_eq_ok_iff.mp hread with ⟨text, rfl, htext⟩ | ⟨rfl, hfilled⟩
  · have hclean := ModuleName.clean_segments_of_ofText htext
    exact Or.inl ⟨text, rfl, htext, ModuleName.canonical_iff.mpr hclean⟩
  · exact Or.inr ⟨rfl, hfilled, ModuleName.canonical_iff⟩

/-- A call in a module whose name is a list with a single segment, and this has a dot in it. -/
def listedText : String :=
  r#"{"kind":"call","callee":{"type":"remote","# ++
    r#""qualifier":{"type":"alias","path":["Foo.Bar"]},"name":"baz"}}"#

def listedCall : Tree := .call (.ofModule ⟨"Foo.Bar", []⟩ "baz") []

theorem ofText_listedText : Tree.ofText listedText = .ok listedCall := by decide +kernel

theorem mentions_listedCall : listedCall.Mentions ⟨"Foo.Bar", []⟩ := .root List.mem_cons_self

theorem not_canonical_dotted : ¬ ModuleName.Canonical ⟨"Foo.Bar", []⟩ := by
  rw [ModuleName.Canonical]
  decide

/-- The name is not canonical, so it was not written as a text. -/
theorem mentions_ofText_listed :
    Tree.ofText listedText = .ok listedCall ∧ listedCall.Mentions ⟨"Foo.Bar", []⟩ ∧
      ∃ v w : Json, Reading.ofText (Json.Document.asValue Json.greatestDepth) listedText = .ok v ∧
        w.Within v ∧ w = .array [.string "Foo.Bar"] := by
  obtain ⟨v, w, hv, hw, hwritten⟩ := mentions_ofText ofText_listedText mentions_listedCall
  refine ⟨ofText_listedText, mentions_listedCall, v, w, hv, hw, ?_⟩
  rcases hwritten with ⟨text, -, -, hcanonical⟩ | ⟨hlist, -⟩
  · exact absurd hcanonical not_canonical_dotted
  · exact hlist

/-- The text of a name in a tree stands for another name, and a search for the latter does not find
the call. -/
theorem listed_not_canonical :
    Tree.ofText listedText = .ok listedCall ∧ listedCall.Mentions ⟨"Foo.Bar", []⟩ ∧
      ¬ ModuleName.Canonical ⟨"Foo.Bar", []⟩ ∧
      ModuleName.ofText (ModuleName.display ⟨"Foo.Bar", []⟩) = .ok ⟨"Foo", ["Bar"]⟩ ∧
      (Query.mk (some (.qualified ⟨"Foo", ["Bar"]⟩ "baz")) none).occursIn listedCall = false :=
  ⟨ofText_listedText, mentions_listedCall, not_canonical_dotted, by decide, by decide⟩

end Tree

end CallAudit
