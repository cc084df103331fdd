import CallAudit.Proofs.NamedFields
import CallAudit.Proofs.WritableTree
import CallAudit.Tree.Reader

/-!
# The fields of a node

A node is written as its kind and its fields, and read from its fields by the reader of its kind.
The writer leaves out what is usually empty, and the reader fills in just that; a function head is
written with a body that is null, and read back as a head. All of this needs only that the nodes
below are read back, by whatever reader it is.

## Main definitions

* `Tree.kind`, `Tree.fields`: the kind that is written for a tree, and the members beside it.

## Main statements

* `Tree.json_eq`: the value of a tree is its kind and its fields.
* `Tree.ofFields_fields`: the reader of each kind, given a reader of the nodes below.
-/

namespace CallAudit

open Reading

namespace Tree

/-- The kind of a tree, with its written name. -/
def kind : Tree → String × Reader.Kind
  | .call _ _ | .callOn _ _ _ => ("call", .call)
  | .define _ _ _ _ | .head _ _ _ => ("def", .definition)
  | .declare (.importing _ _ _) => ("import", .importing)
  | .declare (.aliasing _ _ _) => ("alias", .aliasing)
  | .var _ => ("var", .var)
  | .literal _ => ("literal", .literal)
  | .other _ _ => ("other", .other)

/-- The members that are written for a tree beside its kind. -/
def fields : Tree → List (String × Json)
  | .call callee args => [("callee", callee.json), ("args", .array (args.map json))]
  | .callOn receiver name args =>
    [("callee", qualifiedCallee (.object [("type", .string "expr"), ("node", receiver.json)]) name),
      ("args", .array (args.map json))]
  | .define visibility name params body =>
    [("visibility", .string visibility.display), ("name", .string name),
      ("params", .array (params.map json)), ("body", .array (body.map json))]
  | .head visibility name params =>
    [("visibility", .string visibility.display), ("name", .string name),
      ("params", .array (params.map json)), ("body", .null)]
  | .declare (.importing path rule group) =>
    ("path", path.json) :: optionalMember "options" ImportRule.json rule ++ groupMember group
  | .declare (.aliasing path rename group) =>
    ("path", path.json) :: optionalMember "as" .string rename ++ groupMember group
  | .var name => [("name", .string name)]
  | .literal value => [("value", value)]
  | .other form children =>
    optionalMember "form" .string form ++ [("children", .array (children.map json))]

theorem jsonAll_eq_map (ts : List Tree) : jsonAll ts = ts.map json := by
  induction ts with
  | nil => rfl
  | cons t ts ih => rw [jsonAll, ih, List.map_cons]

theorem json_eq (t : Tree) : t.json = .object (("kind", .string t.kind.1) :: t.fields) := by
  cases t with
  | declare declaration => cases declaration <;> rfl
  | _ => simp only [json, definitionJson, jsonAll_eq_map, kind, fields, List.cons_append]

theorem lookup_kind (t : Tree) : Reader.kinds.lookup t.kind.1 = some t.kind.2 := by
  cases t with
  | declare declaration => cases declaration <;> rfl
  | _ => rfl

theorem fst_ne_kind_of_mem_fields {t : Tree} {m : String × Json} (h : m ∈ t.fields) :
    m.1 ≠ "kind" := by
  have hkeys : "kind" ∉ t.fields.map Prod.fst := by
    cases t with
    | declare declaration =>
      rcases declaration with ⟨path, rule, group⟩ | ⟨path, rename, group⟩
      · cases rule <;> cases group <;> simp [fields, optionalMember, groupMember]
      · cases rename <;> cases group <;> simp [fields, optionalMember, groupMember]
    | other form ts => cases form <;> simp [fields, optionalMember]
    | _ => simp [fields]
  exact fun hm => hkeys (hm ▸ List.mem_map_of_mem h)

/-! ### Reading the fields of a node -/

section Readers

open Reader

variable {sub : Json → Except Fault Tree}

theorem asText_string (name : String) : (Json.string name).asText = .ok name := rfl

theorem ofMembers_named {α : Type} (title field : String) (make : String → α) (name : String) :
    (named title field make).ofMembers [(field, .string name)] = .ok (make name) := by
  have hfield : (named title field make).fields.lookup field =
      some fun v _ => v.asText.map some := by
    simp [named]
  exact Record.ofMembers_of_draft
    (Record.foldlM_addMember_cons hfield List.not_mem_nil rfl (asText_string name) rfl) rfl

theorem receiver_atom (name : String) :
    receiver sub (.object [("type", .string "atom"), ("name", .string name)]) =
      .ok (.atom name) := by
  rw [receiver, Json.asTagged_object "Qualifier" rfl (by simp)]
  exact ofMembers_named "struct variant Qualifier::Atom" "name" Receiver.atom name

theorem receiver_module {m : ModuleName} (h : m.Filled) :
    receiver sub (.object [("type", .string "alias"), ("path", m.json)]) = .ok (.module m) := by
  rw [receiver, Json.asTagged_object "Qualifier" rfl (by simp)]
  exact Record.ofMembers_of_draft
    (Record.foldlM_addMember_cons rfl List.not_mem_nil rfl (Json.asModuleName_json h) rfl) rfl

theorem receiver_computed {v : Json} {t : Tree} (h : sub v = .ok t) :
    receiver sub (.object [("type", .string "expr"), ("node", v)]) = .ok (.computed t) := by
  rw [receiver, Json.asTagged_object "Qualifier" rfl (by simp)]
  exact Record.ofMembers_of_draft
    (Record.foldlM_addMember_cons rfl List.not_mem_nil rfl h rfl) rfl

theorem target_qualified {v : Json} {r : Receiver} (h : receiver sub v = .ok r) (name : String) :
    target sub (qualifiedCallee v name) = .ok (.qualified r name) := by
  rw [target, qualifiedCallee, Json.asTagged_object "Callee" rfl (by simp)]
  exact Record.ofMembers_of_draft
    (Record.foldlM_addMember_cons rfl List.not_mem_nil rfl h
      (Record.foldlM_addMember_cons rfl (by simp) rfl (asText_string name) rfl)) rfl

theorem target_bare (name : String) :
    target sub (Callee.bare name).json = .ok (.bare name) := by
  rw [target, Callee.json, Json.asTagged_object "Callee" rfl (by simp)]
  exact ofMembers_named "struct variant Callee::Local" "name" Target.bare name

theorem target_callee {c : Callee} (h : c.Writable) :
    ∃ target, Reader.target sub c.json = .ok target ∧ ∀ args, target.call args = .call c args := by
  cases c with
  | bare name => exact ⟨_, target_bare name, fun _ => rfl⟩
  | ofAtom atom name => exact ⟨_, target_qualified (receiver_atom atom) name, fun _ => rfl⟩
  | ofModule module name => exact ⟨_, target_qualified (receiver_module h) name, fun _ => rfl⟩

theorem ofMembers_call {callee args : Json} {target : Target} {ts : List Tree}
    (hcallee : Reader.target sub callee = .ok target) (hargs : args.asList sub = .ok ts) :
    (Reader.call sub).ofMembers [("callee", callee), ("args", args)] = .ok (target.call ts) :=
  Record.ofMembers_of_draft
    (Record.foldlM_addMember_cons rfl List.not_mem_nil rfl hcallee
      (Record.foldlM_addMember_cons rfl (by simp) rfl hargs rfl)) rfl

theorem asChoice_visibility (visibility : Visibility) :
    (Json.string visibility.display).asChoice visibilities = .ok visibility := by
  cases visibility <;> rfl

theorem ofMembers_definition {params body : Json} {ps : List Tree} {bs : Option (List Tree)}
    (visibility : Visibility) (name : String) (hparams : params.asList sub = .ok ps)
    (hbody : (body.asOption fun v => v.asList sub) = .ok bs) :
    (definition sub).ofMembers [("visibility", .string visibility.display),
      ("name", .string name), ("params", params), ("body", body)] =
      .ok (bs.elim (.head visibility name ps) (.define visibility name ps)) := by
  refine Record.ofMembers_of_draft
    (Record.foldlM_addMember_cons rfl List.not_mem_nil rfl (asChoice_visibility visibility)
      (Record.foldlM_addMember_cons rfl (by simp) rfl (asText_string name)
        (Record.foldlM_addMember_cons rfl (by simp) rfl hparams
          (Record.foldlM_addMember_cons rfl (by simp) rfl hbody rfl)))) ?_
  cases bs <;> rfl

theorem asRecord_functionRef (f : FunctionRef) : f.json.asRecord functionRef = .ok f := by
  have harity : (Json.ofNat f.arity).asArity = .ok f.arity := rfl
  exact Record.ofMembers_of_draft
    (Record.foldlM_addMember_cons rfl List.not_mem_nil rfl (asText_string f.name)
      (Record.foldlM_addMember_cons rfl (by simp) rfl harity rfl)) rfl

theorem functionRefs_map (functions : List FunctionRef) :
    functionRefs (.array (functions.map FunctionRef.json)) = .ok functions := by
  have h := Json.asList_map (g := id) fun f (_ : f ∈ functions) => asRecord_functionRef f
  rwa [List.map_id] at h

theorem asPayload_importRule (rule : ImportRule) :
    rule.json.asPayload importRules = .ok rule := by
  cases rule with
  | only functions =>
    change (functionRefs (.array (functions.map FunctionRef.json))).map ImportRule.only = _
    rw [functionRefs_map]
    rfl
  | except functions =>
    change (functionRefs (.array (functions.map FunctionRef.json))).map ImportRule.except = _
    rw [functionRefs_map]
    rfl
  | onlyKind kind => cases kind <;> rfl

theorem asOption_of_ne_null {α : Type} {read : Json → Except Fault α} {v : Json} {x : α}
    (hv : v ≠ .null) (h : read v = .ok x) : v.asOption read = .ok (some x) := by
  cases v with
  | null => exact absurd rfl hv
  | _ => simp only [Json.asOption, h, Except.map]

section Declarations

variable {α : Type} {title field : String} {detail : Json → Except Fault α}
  {make : ModuleName → Option α → List ModuleName → Declaration} {group : List ModuleName}

variable (title field detail make) in
theorem foldlM_groupMember (path : Option ModuleName) (given : Option α) {seen : List String}
    (hfield : field ≠ "group") (hnew : "group" ∉ seen) (hgroup : ∀ m ∈ group, m.Filled) :
    ∃ seen', (groupMember group).foldlM (declaration title field detail make).addMember
      ({ path := path, detail := given }, seen) = .ok (⟨path, given, group⟩, seen') := by
  cases group with
  | nil => exact ⟨seen, rfl⟩
  | cons m group =>
    have hlookup : (declaration title field detail make).fields.lookup "group" = some fun v draft =>
        (v.asList Json.asModuleName).map fun group => { draft with group := group } := by
      simp [declaration, List.lookup_cons, beq_false_of_ne hfield.symm]
    have hnames := Json.asList_map (g := id) fun m' hm => Json.asModuleName_json (hgroup m' hm)
    rw [List.map_id] at hnames
    exact ⟨_, Record.foldlM_addMember_cons hlookup hnew rfl hnames rfl⟩

theorem ofMembers_declaration {json : α → Json} {path : ModuleName} {given : Option α}
    (hfield : field ≠ "path" ∧ field ≠ "group") (hpath : path.Filled)
    (hgiven : ∀ x ∈ given, json x ≠ .null ∧ detail (json x) = .ok x)
    (hgroup : ∀ m ∈ group, m.Filled) :
    (declaration title field detail make).ofMembers
      (("path", path.json) :: optionalMember field json given ++ groupMember group) =
      .ok (.declare (make path given group)) := by
  have hname := Json.asModuleName_json hpath
  cases given with
  | none =>
    have hnew : "group" ∉ ["path"] := by decide
    obtain ⟨seen, hrest⟩ :=
      foldlM_groupMember title field detail make (some path) none hfield.2 hnew hgroup
    exact Record.ofMembers_of_draft
      (Record.foldlM_addMember_cons rfl List.not_mem_nil rfl hname hrest) rfl
  | some x =>
    obtain ⟨hnull, hread⟩ := hgiven x rfl
    have hlookup : (declaration title field detail make).fields.lookup field = some fun v draft =>
        (v.asOption detail).map fun d => { draft with detail := d } := by
      simp [declaration, List.lookup_cons, beq_false_of_ne hfield.1]
    have hnew : "group" ∉ [field, "path"] := by simp [hfield.2.symm]
    obtain ⟨seen, hrest⟩ :=
      foldlM_groupMember title field detail make (some path) (some x) hfield.2 hnew hgroup
    exact Record.ofMembers_of_draft
      (Record.foldlM_addMember_cons rfl List.not_mem_nil rfl hname
        (Record.foldlM_addMember_cons hlookup (by simp [hfield.1]) rfl
          (asOption_of_ne_null hnull hread) hrest)) rfl

end Declarations

theorem importRule_json_ne_null (rule : ImportRule) : rule.json ≠ .null := by
  cases rule <;> simp [ImportRule.json]

/-- Each kind of node is read from the fields that are written for it, if the nodes below are. -/
theorem ofFields_fields {t : Tree} (h : t.RootWritable)
    (hsub : ∀ u ∈ t.children, sub u.json = .ok u.canonical) :
    ofFields sub t.kind.2 (.named t.fields) = .ok t.canonical := by
  have hlist (ts : List Tree) (hts : ts ⊆ t.children) :
      (Json.array (ts.map json)).asList sub = .ok (canonicalAll ts) := by
    rw [canonicalAll_eq_map]
    exact Json.asList_map fun u hu => hsub u (hts hu)
  cases t with
  | call callee args =>
    obtain ⟨target, htarget, hcall⟩ := target_callee h
    have hread := ofMembers_call htarget (hlist args (List.Subset.refl _))
    rw [hcall] at hread
    exact hread
  | callOn receiver name args =>
    have hreceiver := receiver_computed (hsub receiver List.mem_cons_self)
    exact ofMembers_call (target_qualified hreceiver name) (hlist args (List.subset_cons_self _ _))
  | define visibility name params body =>
    have hbody := asOption_of_ne_null (by simp) (hlist body (List.subset_append_right _ _))
    exact ofMembers_definition visibility name (hlist params (List.subset_append_left _ _)) hbody
  | head visibility name params =>
    have hbody : (Json.null.asOption fun v => v.asList sub) = .ok none := rfl
    exact ofMembers_definition visibility name (hlist params (List.Subset.refl _)) hbody
  | declare declaration =>
    -- Both kinds of declarations are read by one description, with a detail of their own.
    cases declaration with
    | importing path rule group =>
      exact ofMembers_declaration ⟨by decide, by decide⟩ h.1
        (fun r _ => ⟨importRule_json_ne_null r, asPayload_importRule r⟩) h.2.2
    | aliasing path rename group =>
      exact ofMembers_declaration ⟨by decide, by decide⟩ h.1
        (fun s _ => ⟨by simp, asText_string s⟩) h.2
  | var name => exact ofMembers_named "struct variant Node::Var" "name" Tree.var name
  | literal value => rfl
  | other form ts =>
    have hchildren := hlist ts (List.Subset.refl _)
    cases form with
    | none =>
      exact Record.ofMembers_of_draft
        (Record.foldlM_addMember_cons rfl List.not_mem_nil rfl hchildren rfl) rfl
    | some form =>
      have hform := asOption_of_ne_null (by simp) (asText_string form)
      exact Record.ofMembers_of_draft
        (Record.foldlM_addMember_cons rfl List.not_mem_nil rfl hform
          (Record.foldlM_addMember_cons rfl (by simp) rfl hchildren rfl)) rfl

end Readers

end Tree

end CallAudit
