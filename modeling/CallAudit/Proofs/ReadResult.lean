import CallAudit.Proofs.WrittenValue

/-!
# What readers give

A reader fails or gives a value. What is known of the values it can give passes through the ways in
which readers are put together: one after the other, along a list, and field by field into a draft.
So a property of all records that are ever read comes down to one fact for each field, whether the
record is written with names or by position.

## Main definitions

* `Reading.Gives`: whatever a reader gives has a property.
* `Reading.Record.Keeps`: the fields of a record keep a property of the draft.
* `Json.Fields.values`: the values of the fields of a tagged variant.

## Main statements

* `Reading.Record.Keeps.ofMembers`, `Reading.Record.Keeps.ofItems`,
  `Reading.Record.Keeps.ofDocument`: what is known of a record that was read.
* `Json.gives_asTagged`, `Json.gives_bind_asTagged`: the fields of a tagged variant are parts of its
  value, and what is read from them.
-/

namespace CallAudit

namespace Reading

variable {α β δ σ : Type}

/-- Whatever the reader gives has the property; nothing is said if it fails. -/
def Gives (x : Except Fault α) (P : α → Prop) : Prop := ∀ a, x = .ok a → P a

namespace Gives

variable {x : Except Fault α} {P : α → Prop} {Q : β → Prop}

theorem error {fault : Fault} : Gives (.error fault) P := by
  intro a h
  cases h

theorem ok {a : α} (h : P a) : Gives (.ok a) P := by
  intro b hb
  rwa [← Except.ok.inj hb]

theorem any : Gives x fun _ => True := fun _ _ => trivial

theorem mono {R : α → Prop} (hx : Gives x P) (h : ∀ a, P a → R a) : Gives x R :=
  fun a ha => h a (hx a ha)

theorem bind {f : α → Except Fault β} (hx : Gives x P) (hf : ∀ a, P a → Gives (f a) Q) :
    Gives (x >>= f) Q := by
  cases x with
  | error fault => exact error
  | ok a => exact hf a (hx a rfl)

theorem map {f : α → β} (hx : Gives x P) (hf : ∀ a, P a → Q (f a)) : Gives (x.map f) Q := by
  cases x with
  | error fault => exact error
  | ok a => exact ok (hf a (hx a rfl))

theorem mapSome (hx : Gives x P) : Gives (x.map some) fun o => ∀ a ∈ o, P a := by
  refine map hx fun a ha b hb => ?_
  rwa [← Option.some.inj hb]

theorem ite {c : Prop} [Decidable c] {y : Except Fault α} (hx : Gives x P) (hy : Gives y P) :
    Gives (if c then x else y) P := by
  split
  · exact hx
  · exact hy

theorem foldlM {step : β → σ → Except Fault β} {items : List σ} {b : β} (hb : Q b)
    (hstep : ∀ item ∈ items, ∀ b, Q b → Gives (step b item) Q) :
    Gives (items.foldlM step b) Q := by
  induction items generalizing b with
  | nil => exact ok hb
  | cons item items ih =>
    rw [List.foldlM_cons]
    refine bind (hstep item List.mem_cons_self b hb) fun b' hb' => ?_
    exact ih hb' fun item' hitem => hstep item' (List.mem_cons_of_mem item hitem)

theorem mapM {read : σ → Except Fault α} {items : List σ}
    (h : ∀ item ∈ items, Gives (read item) P) :
    Gives (items.mapM read) fun as => ∀ a ∈ as, P a := by
  induction items with
  | nil =>
    refine ok fun a ha => ?_
    exact absurd ha List.not_mem_nil
  | cons item items ih =>
    rw [List.mapM_cons]
    refine bind (h item List.mem_cons_self) fun a ha => ?_
    refine bind (ih fun item' hitem => h item' (List.mem_cons_of_mem item hitem)) fun as has => ?_
    refine ok fun a' ha' => ?_
    rcases List.mem_cons.mp ha' with rfl | ha'
    · exact ha
    · exact has a' ha'

end Gives

theorem exists_of_bind_eq_ok {x : Except Fault α} {f : α → Except Fault β} {b : β}
    (h : x >>= f = .ok b) : ∃ a, x = .ok a ∧ f a = .ok b := by
  cases x with
  | error fault => cases h
  | ok a => exact ⟨a, rfl, h⟩

theorem exists_of_map_eq_ok {x : Except Fault α} {f : α → β} {b : β} (h : x.map f = .ok b) :
    ∃ a, x = .ok a ∧ f a = b := by
  cases x with
  | error fault => cases h
  | ok a => exact ⟨a, rfl, Except.ok.inj h⟩

theorem mapError_eq_ok_iff {ε : Type} {x : Except ε α} {f : ε → Fault} {a : α} :
    x.mapError f = .ok a ↔ x = .ok a := by
  cases x <;> simp [Except.mapError]

/-- A text is read exactly if its document is, and nothing stands behind it. -/
theorem ofText_eq_ok_iff {read : Json.Document → Except Fault α} {s : String} {a : α} :
    ofText read s = .ok a ↔
      read (Json.Document.ofTokens (Json.Token.scan s.toList)).1 = .ok a ∧
        (Json.Document.ofTokens (Json.Token.scan s.toList)).2 = [] := by
  rw [ofText]
  obtain ⟨document, behind⟩ := Json.Document.ofTokens (Json.Token.scan s.toList)
  dsimp only
  cases read document with
  | error fault => simp
  | ok b => cases behind <;> simp

theorem mem_of_lookup {options : List (String × α)} {name : String} {a : α}
    (h : options.lookup name = some a) : (name, a) ∈ options := by
  obtain ⟨before, behind, rfl, -⟩ := List.lookup_eq_some_iff.mp h
  simp

theorem gives_choose (options : List (String × α)) (name : String) :
    Gives (choose options name) fun a => (name, a) ∈ options := by
  rw [choose]
  cases h : options.lookup name with
  | none => exact Gives.error
  | some a => exact Gives.ok (mem_of_lookup h)

namespace Record

/-- A property `P` of the draft holds at the start and is kept by every field with a value for which
`Q` holds, and a record made of such a draft has the property `R`. -/
structure Keeps (r : Record σ δ α) (Q : σ → Prop) (P : δ → Prop) (R : α → Prop) : Prop where
  blank : P r.blank
  field : ∀ f ∈ r.fields, ∀ v draft, Q v → P draft → Gives (f.2 v draft) P
  finish : ∀ lack draft, P draft → Gives (r.finish lack draft) R

namespace Keeps

variable {r : Record σ δ α} {Q : σ → Prop} {P : δ → Prop} {R : α → Prop}

theorem addMember (h : r.Keeps Q P R) {draft : Draft δ} {member : String × σ} (hdraft : P draft.1)
    (hmember : Q member.2) : Gives (r.addMember draft member) fun d => P d.1 := by
  rw [Record.addMember]
  cases hlookup : r.fields.lookup member.1 with
  | none => exact Gives.ok hdraft
  | some read =>
    refine Gives.ite Gives.error ?_
    exact Gives.map (h.field _ (mem_of_lookup hlookup) member.2 draft.1 hmember hdraft) fun _ => id

theorem ofMembers (h : r.Keeps Q P R) {members : List (String × σ)}
    (hmembers : ∀ m ∈ members, Q m.2) : Gives (r.ofMembers members) R := by
  have hdraft : Gives (members.foldlM r.addMember (r.blank, [])) fun d => P d.1 :=
    Gives.foldlM h.blank fun m hm d hd => h.addMember hd (hmembers m hm)
  exact Gives.bind hdraft fun d hd => h.finish _ d.1 hd

theorem addItems (h : r.Keeps Q P R) {items : List σ} (hitems : ∀ v ∈ items, Q v) :
    Gives (r.addItems items) P := by
  refine Gives.foldlM h.blank fun x hx d hd => ?_
  obtain ⟨hfield, hitem⟩ := List.of_mem_zip hx
  exact h.field x.1 hfield x.2 d (hitems x.2 hitem) hd

theorem ofItems (h : r.Keeps Q P R) {items : List σ} (hitems : ∀ v ∈ items, Q v) :
    Gives (r.ofItems items) R := by
  refine Gives.bind (h.addItems hitems) fun d hd => ?_
  refine Gives.bind (h.finish _ d hd) fun a ha => ?_
  exact Gives.ite (Gives.ok ha) Gives.error

/-- A record with a single slot, which has to be filled: it comes down to what fills the slot. -/
theorem of_slot {r : Record σ (Option β) α} {B : β → Prop} (hblank : r.blank = none)
    (hfield : ∀ f ∈ r.fields, ∀ v draft, Q v → Gives (f.2 v draft) fun slot => ∀ b ∈ slot, B b)
    (hnone : ∀ lack, ∃ fault, r.finish lack none = .error fault)
    (hsome : ∀ lack b, B b → Gives (r.finish lack (some b)) R) :
    r.Keeps Q (fun slot => ∀ b ∈ slot, B b) R where
  blank := by
    rw [hblank]
    exact nofun
  field := fun f hf v draft hv _ => hfield f hf v draft hv
  finish := by
    intro lack draft hdraft
    cases draft with
    | none =>
      obtain ⟨fault, hfault⟩ := hnone lack
      rw [hfault]
      exact Gives.error
    | some b => exact hsome lack b (hdraft b rfl)

end Keeps

end Record

end Reading

open Reading

variable {α δ : Type} {P : α → Prop}

/-! ### Readers of values -/

namespace Json

/-- The values of the fields, without their names. -/
def Fields.values : Fields → List Json
  | .named members => members.map Prod.snd
  | .positional items => items

theorem gives_asList {read : Json → Except Fault α} {v : Json}
    (h : ∀ w ∈ v.parts, Gives (read w) P) : Gives (v.asList read) fun as => ∀ a ∈ as, P a := by
  cases v with
  | array items => exact Gives.mapM h
  | _ => exact Gives.error

theorem gives_asOption {read : Json → Except Fault α} {v : Json} (h : Gives (read v) P) :
    Gives (v.asOption read) fun o => ∀ a ∈ o, P a := by
  cases v with
  | null => exact Gives.ok nofun
  | _ => exact Gives.mapSome h

theorem gives_asTag (options : List (String × α)) (v : Json) :
    Gives (v.asTag options) fun a => ∃ name, (name, a) ∈ options := by
  cases v with
  | string name => exact (gives_choose options name).mono fun a ha => ⟨name, ha⟩
  | number n =>
    cases n with
    | integer i =>
      cases i with
      | ofNat place =>
        rw [asTag]
        cases hplace : options[place]? with
        | none => exact Gives.error
        | some option => exact Gives.ok ⟨option.1, List.mem_of_getElem? hplace⟩
      | negSucc i => exact Gives.error
    | double x => exact Gives.error
  | _ => exact Gives.error

/-- The variant is one of the family, and its fields stand inside the value. -/
theorem gives_asTagged (tag family : String) (options : List (String × α)) (v : Json) :
    Gives (v.asTagged tag family options) fun x =>
      (∃ name, (name, x.1) ∈ options) ∧ ∀ w ∈ x.2.values, w ∈ v.parts := by
  cases v with
  | array items =>
    cases items with
    | nil => exact Gives.error
    | cons first items =>
      exact Gives.map (gives_asTag options first) fun a ha =>
        ⟨ha, fun w hw => List.mem_cons_of_mem first hw⟩
  | object members =>
    -- The draft holds one of the variants, if it holds any, and members of the object only.
    let Good (draft : TagDraft α) : Prop :=
      (∀ a ∈ draft.1, ∃ name, (name, a) ∈ options) ∧ draft.2 ⊆ members
    have hstep : ∀ m ∈ members, ∀ draft, Good draft →
        Gives (addTagged tag options draft m) Good := by
      rintro m hm draft ⟨hvariant, hmembers⟩
      rw [addTagged]
      refine Gives.ite ?_ (Gives.ok ⟨hvariant, List.cons_subset.mpr ⟨hm, hmembers⟩⟩)
      cases draft.1 with
      | some a => exact Gives.error
      | none =>
        refine Gives.map (gives_asTag options m.2) fun a ha => ⟨?_, hmembers⟩
        intro b hb
        rwa [← Option.some.inj hb]
    have hstart : Good (none, []) := by
      refine ⟨fun a ha => ?_, List.nil_subset members⟩
      cases ha
    refine Gives.bind (Gives.foldlM hstart hstep) fun draft hdraft => ?_
    obtain ⟨hvariant, hmembers⟩ := hdraft
    rw [TagDraft.finish]
    cases hfound : draft.1 with
    | none => exact Gives.error
    | some a =>
      refine Gives.ok ⟨hvariant a hfound, fun w hw => ?_⟩
      obtain ⟨m, hm, rfl⟩ := List.mem_map.mp hw
      exact List.mem_map_of_mem (hmembers (List.mem_reverse.mp hm))
  | _ => exact Gives.error

/-- What is read from the fields of a tagged variant, whichever of the family it is. -/
theorem gives_bind_asTagged {β : Type} {tag family : String} {options : List (String × α)}
    {v : Json} {read : α × Fields → Except Fault β} {Q : Json → Prop} {R : β → Prop}
    (hparts : ∀ w ∈ v.parts, Q w)
    (hread : ∀ option ∈ options, ∀ fields : Fields, (∀ w ∈ fields.values, Q w) →
      Gives (read (option.2, fields)) R) :
    Gives (v.asTagged tag family options >>= read) R := by
  refine Gives.bind (gives_asTagged tag family options v) fun x hx => ?_
  obtain ⟨⟨name, hoption⟩, hvalues⟩ := hx
  exact hread (name, x.1) hoption x.2 fun w hw => hparts w (hvalues w hw)

end Json

theorem Reading.Record.Keeps.ofFields {r : Record Json δ α} {Q : Json → Prop} {P : δ → Prop}
    {R : α → Prop} (h : r.Keeps Q P R) {fields : Json.Fields} (hvalues : ∀ v ∈ fields.values, Q v) :
    Gives (fields.asRecord r) R := by
  cases fields with
  | named members => exact h.ofMembers fun m hm => hvalues m.2 (List.mem_map_of_mem hm)
  | positional items => exact h.ofItems hvalues

/-! ### Readers of documents -/

namespace Json.Document

theorem gives_asList {read : Document → Except Fault α} (h : ∀ d, Gives (read d) P) (d : Document) :
    Gives (d.asList read) fun as => ∀ a ∈ as, P a := by
  cases d with
  | array items closed =>
    refine Gives.bind (Gives.mapM fun item _ => h item) fun as has => ?_
    exact Gives.ite (Gives.ok has) Gives.error
  | _ => exact Gives.error

theorem gives_asOption {read : Document → Except Fault α} {d : Document} (h : Gives (read d) P) :
    Gives (d.asOption read) fun o => ∀ a ∈ o, P a := by
  cases d with
  | null => exact Gives.ok nofun
  | _ => exact Gives.mapSome h

end Json.Document

theorem Reading.Record.Keeps.ofDocument {r : Record Json.Document δ α} {P : δ → Prop}
    {R : α → Prop} (h : r.Keeps (fun _ => True) P R) (d : Json.Document) :
    Gives (d.asRecord r) R := by
  cases d with
  | object members closed =>
    have hstep : ∀ m ∈ members, ∀ draft : Record.Draft δ, P draft.1 →
        Gives (Json.Document.addMember r draft m) fun draft => P draft.1 := by
      rintro ⟨key, value⟩ - draft hdraft
      rw [Json.Document.addMember]
      split
      · exact Gives.ite (h.addMember hdraft trivial) Gives.error
      · exact Gives.error
    refine Gives.bind (Gives.foldlM h.blank hstep) fun draft hdraft => ?_
    exact Gives.ite (h.finish _ draft.1 hdraft) Gives.error
  | array items closed =>
    refine Gives.bind (h.addItems fun _ _ => trivial) fun draft hdraft => ?_
    refine Gives.bind (h.finish _ draft hdraft) fun a ha => ?_
    exact Gives.ite (Gives.ok ha) Gives.error
  | _ => exact Gives.error

end CallAudit
