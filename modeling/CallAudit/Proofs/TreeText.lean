import CallAudit.Proofs.NodeFields

/-!
# The text of a tree

A tree is read back from its text, up to the order of keys in its literals, and two trees with the
same text are the same. The text must not nest more containers than the reader takes; a subtree
stands in fewer containers than the tree, so the depth that the reader has left suffices for all
nodes on the way down.

## Main statements

* `Tree.node_json`: the tree that the value of a tree is.
* `Tree.plain_json`: the value of a writable tree has only integers of 64 bits in it.
* `Tree.json_injective`: writable trees with the same value are the same.
* `Tree.ofText_text`: the tree that the text of a tree holds.
-/

namespace CallAudit

open Reading

namespace Tree

theorem depth_lt_of_mem_fields {t : Tree} {m : String × Json} (h : m ∈ t.fields) :
    m.2.depth < t.json.depth := by
  rw [json_eq]
  exact Json.depth_lt_of_mem_parts (List.mem_map_of_mem (List.mem_cons_of_mem _ h))

theorem depth_json_lt_of_mem_children {t u : Tree} (h : u ∈ t.children) :
    u.json.depth < t.json.depth := by
  have hlist (name : String) (ts : List Tree) (hm : (name, Json.array (ts.map json)) ∈ t.fields)
      (hu : u ∈ ts) : u.json.depth < t.json.depth :=
    (Json.depth_lt_of_mem_parts (List.mem_map_of_mem hu)).trans (depth_lt_of_mem_fields hm)
  cases t with
  | call callee args => exact hlist "args" args (by simp [fields]) h
  | callOn receiver name args =>
    rcases List.mem_cons.mp h with rfl | h
    · -- The receiver stands two objects below the node.
      let computed := Json.object [("type", .string "expr"), ("node", u.json)]
      have hnode : u.json.depth < computed.depth :=
        Json.depth_lt_of_mem_parts (by simp [computed, Json.parts])
      have hcallee : computed.depth < (qualifiedCallee computed name).depth :=
        Json.depth_lt_of_mem_parts (by simp [qualifiedCallee, Json.parts])
      have hfield := depth_lt_of_mem_fields (t := .callOn u name args) List.mem_cons_self
      exact hnode.trans (hcallee.trans hfield)
    · exact hlist "args" args (by simp [fields]) h
  | define visibility name params body =>
    rcases List.mem_append.mp h with h | h
    · exact hlist "params" params (by simp [fields]) h
    · exact hlist "body" body (by simp [fields]) h
  | head visibility name params => exact hlist "params" params (by simp [fields]) h
  | declare declaration => exact absurd h List.not_mem_nil
  | var name => exact absurd h List.not_mem_nil
  | literal value => exact absurd h List.not_mem_nil
  | other form ts => exact hlist "children" ts (by simp [fields]) h

theorem node_json {t : Tree} {n : Nat} (ht : t.Writable) (hdepth : t.json.depth ≤ n) :
    Reader.node n t.json = .ok t.canonical := by
  induction t using children_induction generalizing n with
  | node t ih =>
    obtain ⟨hroot, hchildren⟩ := writable_iff.mp ht
    cases n with
    | zero =>
      rw [json_eq] at hdepth
      exact absurd hdepth (Nat.not_succ_le_zero _)
    | succ n =>
      have hsub : ∀ u ∈ t.children, Reader.node n u.json = .ok u.canonical := by
        intro u hu
        have := depth_json_lt_of_mem_children hu
        exact ih u hu (hchildren u hu) (by omega)
      rw [Reader.node, json_eq, Json.asTagged_object "Node" t.lookup_kind fun m hm =>
        fst_ne_kind_of_mem_fields hm]
      exact ofFields_fields hroot hsub

theorem root_document {t : Tree} (ht : t.Writable) (hdepth : t.json.depth ≤ Json.greatestDepth) :
    Reader.root t.json.document = .ok t.canonical := by
  obtain ⟨hroot, hchildren⟩ := writable_iff.mp ht
  have hsub : ∀ u ∈ t.children, Reader.node Json.greatestDepth u.json = .ok u.canonical := by
    intro u hu
    have := depth_json_lt_of_mem_children hu
    exact node_json (hchildren u hu) (by omega)
  rw [json_eq] at hdepth
  rw [Reader.root, json_eq, Json.Document.asTagged_object "Node" t.lookup_kind
    (fun m hm => fst_ne_kind_of_mem_fields hm) hdepth]
  exact ofFields_fields hroot hsub

/-! ### The value of a tree is plain -/

theorem plain_moduleName (m : ModuleName) : m.json.Plain := by
  simp [ModuleName.json]

theorem plain_callee (c : Callee) : c.json.Plain := by
  cases c <;> simp [Callee.json, qualifiedCallee, plain_moduleName]

theorem plain_ofNat {n : Nat} (h : n < Numeral.significandBound) : (Json.ofNat n).Plain := by
  refine .intro ⟨?_, Int.ofNat_lt.mpr h⟩ (by simp [Json.ofNat, Json.parts])
  exact Int.le_trans (by decide) (Int.natCast_nonneg n)

theorem plain_functionRef {f : FunctionRef} (h : f.Fits) : f.json.Plain := by
  simp [FunctionRef.json, plain_ofNat h]

theorem plain_importRule {r : ImportRule} (h : r.Fits) : r.json.Plain := by
  have hall (functions : List FunctionRef) (hfs : ∀ f ∈ functions, f.Fits) :
      (Json.array (functions.map FunctionRef.json)).Plain := by
    rw [Json.plain_array_iff]
    intro v hv
    obtain ⟨f, hf, rfl⟩ := List.mem_map.mp hv
    exact plain_functionRef (hfs f hf)
  cases r with
  | only functions => simpa [ImportRule.json] using hall functions h
  | except functions => simpa [ImportRule.json] using hall functions h
  | onlyKind kind => simp [ImportRule.json]

theorem plain_groupMember {group : List ModuleName} {m : String × Json}
    (h : m ∈ groupMember group) : m.2.Plain := by
  cases group with
  | nil => exact absurd h List.not_mem_nil
  | cons first group =>
    obtain rfl := List.mem_singleton.mp h
    simp [plain_moduleName]

theorem plain_optionalMember {α : Type} {name : String} {json : α → Json} {x : Option α}
    {m : String × Json} (hplain : ∀ a ∈ x, (json a).Plain) (h : m ∈ optionalMember name json x) :
    m.2.Plain := by
  cases x with
  | none => exact absurd h List.not_mem_nil
  | some a =>
    obtain rfl := List.mem_singleton.mp h
    exact hplain a rfl

theorem plain_json {t : Tree} (ht : t.Writable) : t.json.Plain := by
  induction t using children_induction with
  | node t ih =>
    obtain ⟨hroot, hchildren⟩ := writable_iff.mp ht
    have hlist (ts : List Tree) (hts : ts ⊆ t.children) :
        (Json.array (ts.map json)).Plain := by
      rw [Json.plain_array_iff]
      intro v hv
      obtain ⟨u, hu, rfl⟩ := List.mem_map.mp hv
      exact ih u (hts hu) (hchildren u (hts hu))
    have hfields : ∀ m ∈ t.fields, m.2.Plain := by
      cases t with
      | call callee args =>
        simpa [fields, plain_callee] using hlist args (List.Subset.refl _)
      | callOn receiver name args =>
        have hreceiver := ih receiver List.mem_cons_self (hchildren receiver List.mem_cons_self)
        simpa [fields, qualifiedCallee, hreceiver] using hlist args (List.subset_cons_self _ _)
      | define visibility name params body =>
        have hparams := hlist params (List.subset_append_left _ _)
        have hbody := hlist body (List.subset_append_right _ _)
        simpa [fields] using And.intro hparams hbody
      | head visibility name params =>
        simpa [fields] using hlist params (List.Subset.refl _)
      | declare declaration =>
        intro m hm
        cases declaration with
        | importing path rule group =>
          rcases List.mem_append.mp hm with hm | hm
          · rcases List.mem_cons.mp hm with rfl | hm
            · exact plain_moduleName path
            · exact plain_optionalMember (fun r hr => plain_importRule (hroot.2.1 r hr)) hm
          · exact plain_groupMember hm
        | aliasing path rename group =>
          rcases List.mem_append.mp hm with hm | hm
          · rcases List.mem_cons.mp hm with rfl | hm
            · exact plain_moduleName path
            · exact plain_optionalMember (fun s _ => Json.plain_string s) hm
          · exact plain_groupMember hm
      | var name => simp [fields]
      | literal value => simpa [fields] using hroot.1
      | other form ts =>
        intro m hm
        rcases List.mem_append.mp hm with hm | hm
        · exact plain_optionalMember (fun s _ => Json.plain_string s) hm
        · obtain rfl := List.mem_singleton.mp hm
          exact hlist ts (List.Subset.refl _)
    rw [json_eq, Json.plain_object_iff]
    simpa using hfields

/-! ### Trees with the same value -/

/-- The canonical form knows everything but the literals, and the value knows the literals. -/
theorem eq_of_canonical_eq_of_json_eq {t u : Tree} (hc : t.canonical = u.canonical)
    (hj : t.json = u.json) : t = u := by
  induction t using children_induction generalizing u with
  | node t ih =>
    have hlist (ts us : List Tree) (hts : ts ⊆ t.children)
        (hc : canonicalAll ts = canonicalAll us) (hj : jsonAll ts = jsonAll us) : ts = us := by
      induction ts generalizing us with
      | nil =>
        cases us with
        | nil => rfl
        | cons u us => exact absurd hj (List.cons_ne_nil _ _).symm
      | cons a ts ihts =>
        cases us with
        | nil => exact absurd hj (List.cons_ne_nil _ _)
        | cons b us =>
          obtain ⟨hca, hcs⟩ := List.cons.inj hc
          obtain ⟨hja, hjs⟩ := List.cons.inj hj
          rw [ih a (hts List.mem_cons_self) hca hja,
            ihts us (List.subset_of_cons_subset hts) hcs hjs]
    -- The canonical forms agree at the root, so only the pairs of one constructor are left.
    cases t <;> cases u <;> simp only [canonical, reduceCtorEq, call.injEq, callOn.injEq,
      define.injEq, head.injEq, declare.injEq, var.injEq, literal.injEq, other.injEq] at hc
    all_goals simp only [json, definitionJson, qualifiedCallee, Json.object.injEq,
      Json.array.injEq, List.cons_append, List.cons.injEq, Prod.mk.injEq, true_and, and_true] at hj
    case call.call callee args callee' args' =>
      rw [hc.1, hlist args args' (List.Subset.refl _) hc.2 hj.2]
    case callOn.callOn receiver name args receiver' name' args' =>
      rw [ih receiver List.mem_cons_self hc.1 hj.1.1, hc.2.1,
        hlist args args' (List.subset_cons_self _ _) hc.2.2 hj.2]
    case define.define visibility name params body visibility' name' params' body' =>
      rw [hc.1, hc.2.1, hlist params params' (List.subset_append_left _ _) hc.2.2.1 hj.2.2.1,
        hlist body body' (List.subset_append_right _ _) hc.2.2.2 hj.2.2.2]
    case head.head visibility name params visibility' name' params' =>
      rw [hc.1, hc.2.1, hlist params params' (List.Subset.refl _) hc.2.2 hj.2.2]
    case declare.declare declaration declaration' => rw [hc]
    case var.var name name' => rw [hc]
    case literal.literal value value' => rw [hj]
    case other.other form ts form' ts' =>
      rw [hc.1, List.append_cancel_left_eq] at hj
      simp only [List.cons.injEq, Prod.mk.injEq, Json.array.injEq, true_and, and_true] at hj
      rw [hc.1, hlist ts ts' (List.Subset.refl _) hc.2 hj]

theorem json_injective {t u : Tree} (ht : t.Writable) (hu : u.Writable) (h : t.json = u.json) :
    t = u := by
  have hread := node_json ht (Nat.le_refl _)
  rw [h, node_json hu (Nat.le_refl _)] at hread
  exact eq_of_canonical_eq_of_json_eq (Except.ok.inj hread).symm h

/-- A tree is read back from its text with its literals in canonical form, which differ from the
literals at most in the order of members, and not at all where the keys ascend. No other tree has
the same text. -/
theorem ofText_text {t : Tree} (ht : t.Writable) (hdepth : t.json.depth ≤ Json.greatestDepth) :
    Tree.ofText t.text = .ok t.canonical ∧
      (∀ p v, t.node? p = some (.literal v) → v.Reordered v.canonical) ∧
      (t.KeysAscend → Tree.ofText t.text = .ok t) ∧
      ∀ u : Tree, u.Writable → t.text = u.text → t = u := by
  have hread : Tree.ofText t.text = .ok t.canonical := by
    rw [Tree.ofText, text, Json.ofText_compact (plain_json ht), root_document ht hdepth]
  refine ⟨hread, fun p v hv => Json.reordered_canonical (ht p _ hv).2, fun hkeys => ?_, ?_⟩
  · rw [hread, canonical_of_keysAscend hkeys]
  · intro u hu htext
    exact json_injective ht hu (Json.compact_injective (plain_json ht) (plain_json hu) htext)

/-- A tree with the greatest arity and the least integer in it, and with keys out of order. -/
def extremes : Tree :=
  .other none
    [.declare (.importing ⟨"Foo", ["Bar"]⟩ (some (.only [⟨"run", 18446744073709551615⟩]))
      [⟨"Baz", []⟩]),
    .head .private "quote \" and\nnew line" [],
    .literal (.object [("b", .number (.integer (-9223372036854775808))), ("a", .null)])]

theorem ofText_text_extremes :
    extremes.Writable ∧ extremes.json.depth ≤ Json.greatestDepth ∧
      Tree.ofText extremes.text = .ok (.other none
        [.declare (.importing ⟨"Foo", ["Bar"]⟩ (some (.only [⟨"run", 18446744073709551615⟩]))
          [⟨"Baz", []⟩]),
        .head .private "quote \" and\nnew line" [],
        .literal (.object
          [("a", .null), ("b", .number (.integer (-9223372036854775808)))])]) := by
  have hleaf {t : Tree} (hroot : t.RootWritable) (hnone : t.children = []) : t.Writable := by
    rw [writable_iff, hnone]
    exact ⟨hroot, fun u hu => absurd hu List.not_mem_nil⟩
  have hdeclaration : (Declaration.importing ⟨"Foo", ["Bar"]⟩
      (some (.only [⟨"run", 18446744073709551615⟩])) [⟨"Baz", []⟩]).Writable := by
    simp [Declaration.Writable, ModuleName.Filled, ModuleName.segments, ImportRule.Fits,
      FunctionRef.Fits, Numeral.significandBound]
  have hinteger : (Json.number (.integer (-9223372036854775808))).Plain :=
    .intro ⟨by decide, by decide⟩ (by simp [Json.parts])
  have hdistinct : (Json.object [("b", .number (.integer (-9223372036854775808))),
      ("a", .null)]).KeysDistinct := by
    have hnumber : (Json.number (.integer (-9223372036854775808))).KeysDistinct :=
      .intro List.nodup_nil (by simp [Json.parts])
    have hnull : Json.null.KeysDistinct := .intro List.nodup_nil (by simp [Json.parts])
    refine .intro (by simp [Json.keys]) ?_
    simp only [Json.parts, List.map_cons, List.map_nil, List.forall_mem_cons]
    exact ⟨hnumber, hnull, by simp⟩
  have hwritable : extremes.Writable := by
    rw [writable_iff]
    simp only [extremes, children, List.forall_mem_cons]
    refine ⟨trivial, hleaf hdeclaration rfl, hleaf trivial rfl, hleaf ⟨?_, hdistinct⟩ rfl, by simp⟩
    simp [hinteger]
  have hdepth : extremes.json.depth ≤ Json.greatestDepth := by decide
  have hcanonical := (ofText_text hwritable hdepth).1
  exact ⟨hwritable, hdepth, hcanonical.trans (congrArg Except.ok (by decide))⟩

end Tree

end CallAudit
