import CallAudit.Proofs.WrittenValue
import CallAudit.Tree.Writer

/-!
# Reading named fields

What readers of records and of tagged variants make of an object whose members they know. Each known
member goes into the draft in its turn; the tag is taken out, and the members beside it are handed
on in their order. A reader that takes a whole document and one that takes a value make the same of
the tag, as long as the members beside it are not nested too deep.

## Main statements

* `Reading.Record.foldlM_addMember_cons`: one member of a record.
* `Json.asTagged_object`, `Json.Document.asTagged_object`: a tagged variant in a value and in a
  document.
* `Json.asModuleName_json`: a module name from the list of its segments.
-/

namespace CallAudit

open Reading

variable {α β δ σ : Type}

namespace Reading.Record

variable {r : Record σ δ α} {members : List (String × σ)}

/-- A member whose value is read as `x` goes into the draft, and reading goes on behind it. -/
theorem foldlM_addMember_cons {name : String} {value : σ} {read : σ → δ → Except Fault δ}
    {draft : δ} {seen : List String} {source : Except Fault β} {x : β} {put : β → δ}
    {result : Except Fault (Draft δ)} (hfield : r.fields.lookup name = some read)
    (hnew : name ∉ seen) (hread : read value draft = source.map put) (hsource : source = .ok x)
    (hrest : members.foldlM r.addMember (put x, name :: seen) = result) :
    ((name, value) :: members).foldlM r.addMember (draft, seen) = result := by
  have hcontains : ¬ seen.contains name = true := by
    rw [List.contains_iff_mem]
    exact hnew
  have hadd : r.addMember (draft, seen) (name, value) = .ok (put x, name :: seen) := by
    simp only [addMember, hfield, if_neg hcontains, add, hread, hsource, Except.map]
  rw [List.foldlM_cons, hadd]
  exact hrest

theorem ofMembers_of_draft {draft : Draft δ} {result : Except Fault α}
    (h : members.foldlM r.addMember (r.blank, []) = .ok draft)
    (hfinish : r.finish lackOfMember draft.1 = result) : r.ofMembers members = result := by
  rw [ofMembers, h]
  exact hfinish

end Reading.Record

theorem Reading.choose_of_lookup {options : List (String × α)} {name : String} {variant : α}
    (h : options.lookup name = some variant) : choose options name = .ok variant := by
  rw [choose, h]

/-- Reading the values of all items gives all items back if reading one value does. -/
theorem mapM_map_ok {f : β → σ} {read : σ → Except Fault α} {g : β → α} {items : List β}
    (h : ∀ b ∈ items, read (f b) = .ok (g b)) :
    (items.map f).mapM read = .ok (items.map g) := by
  induction items with
  | nil => rfl
  | cons b items ih =>
    rw [List.map_cons, List.mapM_cons, h b List.mem_cons_self,
      ih fun b' hb => h b' (List.mem_cons_of_mem b hb)]
    rfl

namespace Json

variable {tag name : String} {options : List (String × α)} {variant : α}
  {members : List (String × Json)}

theorem asList_map {f : β → Json} {read : Json → Except Fault α} {g : β → α} {items : List β}
    (h : ∀ b ∈ items, read (f b) = .ok (g b)) :
    (Json.array (items.map f)).asList read = .ok (items.map g) := mapM_map_ok h

/-- A step that puts every member beside the tag collects all of them, the last one first. -/
theorem foldlM_tagDraft {step : TagDraft α → σ → Except Fault (TagDraft α)}
    {f : String × Json → σ}
    (h : ∀ m ∈ members, ∀ draft, step draft (f m) = .ok (draft.1, m :: draft.2))
    (draft : TagDraft α) :
    (members.map f).foldlM step draft = .ok (draft.1, members.reverse ++ draft.2) := by
  induction members generalizing draft with
  | nil => rfl
  | cons m members ih =>
    rw [List.map_cons, List.foldlM_cons, h m List.mem_cons_self]
    change (members.map f).foldlM step (draft.1, m :: draft.2) = _
    rw [ih fun m' hm => h m' (List.mem_cons_of_mem m hm), List.reverse_cons, List.append_assoc,
      List.singleton_append]

theorem asTagged_object (family : String) (hname : options.lookup name = some variant)
    (hfree : ∀ m ∈ members, m.1 ≠ tag) :
    (Json.object ((tag, .string name) :: members)).asTagged tag family options =
      .ok (variant, .named members) := by
  have htag : addTagged tag options (none, []) (tag, .string name) = .ok (some variant, []) := by
    simp only [addTagged, if_pos, asTag, choose_of_lookup hname, Except.map]
  have hbeside (m : String × Json) (hm : m ∈ members) (draft : TagDraft α) :
      addTagged tag options draft m = .ok (draft.1, m :: draft.2) := by
    rw [addTagged, if_neg (hfree m hm)]
  have hdraft : ((tag, .string name) :: members).foldlM (addTagged tag options) (none, []) =
      .ok (some variant, members.reverse) := by
    have hrest := foldlM_tagDraft (f := id) hbeside (some variant, [])
    rw [List.map_id, List.append_nil] at hrest
    rw [List.foldlM_cons, htag]
    exact hrest
  simp only [asTagged, hdraft, bind, Except.bind, TagDraft.finish, List.reverse_reverse]

theorem memberDocuments_eq_map (members : List (String × Json)) :
    memberDocuments members = members.map fun m => (.text (some m.1), m.2.document) := by
  induction members with
  | nil => rfl
  | cons m members ih => rw [memberDocuments, ih, List.map_cons]

theorem Document.asTagged_object {depth : Nat} (family : String)
    (hname : options.lookup name = some variant) (hfree : ∀ m ∈ members, m.1 ≠ tag)
    (hdepth : (Json.object ((tag, .string name) :: members)).depth ≤ depth) :
    (Json.object ((tag, .string name) :: members)).document.asTagged depth tag family options =
      .ok (variant, .named members) := by
  have htag : addTagged (depth - 1) tag options (none, [])
      (.text (some tag), (Json.string name).document) = .ok (some variant, []) := by
    simp only [addTagged, if_pos, document, asVariant, choose_of_lookup hname, Except.map]
  have hbeside (m : String × Json) (hm : m ∈ members) (draft : TagDraft α) :
      addTagged (depth - 1) tag options draft (.text (some m.1), m.2.document) =
        .ok (draft.1, m :: draft.2) := by
    have hpart : m.2 ∈ (Json.object ((tag, .string name) :: members)).parts :=
      List.mem_map_of_mem (List.mem_cons_of_mem _ hm)
    have hfits : m.2.depth ≤ depth - 1 := by
      have := depth_lt_of_mem_parts hpart
      omega
    simp only [addTagged, if_neg (hfree m hm), asValue, value?_document hfits, Except.map]
  have hdraft : (memberDocuments ((tag, .string name) :: members)).foldlM
      (addTagged (depth - 1) tag options) (none, []) = .ok (some variant, members.reverse) := by
    have hrest := foldlM_tagDraft hbeside (some variant, [])
    rw [← memberDocuments_eq_map, List.append_nil] at hrest
    rw [memberDocuments, List.foldlM_cons, htag]
    exact hrest
  simp only [asTagged, document, hdraft, bind, Except.bind, if_true, TagDraft.finish,
    List.reverse_reverse]

theorem texts?_map_string (segments : List String) :
    texts? (segments.map .string) = some segments := by
  induction segments with
  | nil => rfl
  | cons segment segments ih => rw [List.map_cons, texts?, ih, Option.map_some]

theorem asModuleName_json {m : ModuleName} (h : "" ∉ m.segments) : m.json.asModuleName = .ok m := by
  have hfull : ¬ m.segments.any String.isEmpty = true := by
    rw [List.any_eq_true]
    rintro ⟨segment, hmem, hempty⟩
    rw [String.isEmpty_iff] at hempty
    exact h (hempty ▸ hmem)
  have hsegments : ModuleName.ofSegments m.segments = .ok m := by
    rw [ModuleName.ofSegments, if_neg hfull]
    rfl
  rw [ModuleName.json, asModuleName, texts?_map_string]
  simp only [hsegments, Except.mapError]

end Json

end CallAudit
