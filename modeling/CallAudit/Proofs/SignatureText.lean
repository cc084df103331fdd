import CallAudit.Name.Signature
import CallAudit.Proofs.Pieces

/-!
# Signatures and their texts

The text of a signature is read from its last dot and the text of a module name from its first, but
both come down to the pieces of the text. A text with an empty piece stands for nothing, and where
the empty piece is decides what is wrong with it. Every other text stands for a module name with its
pieces for segments, and for a signature with its last piece for the name.

Reading a signature therefore gives clean texts only, and a signature is read back from its own text
exactly if it is made of clean texts.

## Main statements

* `ModuleName.ofChars_eq_ok_iff`, `ModuleName.ofChars_eq_error`: reading a module name, by pieces.
* `Signature.ofChars_eq_of_pieces`: reading a signature, by pieces.
* `Signature.ofText_pieces`: which texts are signatures, and why the others are none.
* `Signature.ofText_display`: which signatures are read back from their texts.
-/

namespace CallAudit

open Text (trim pieces beforeLastDot Clean)

namespace ModuleName

theorem map_segments_ofSegments? (segments : List String) :
    (ofSegments? segments).map ModuleName.segments =
      if segments = [] then none else some segments := by
  cases segments with
  | nil => rfl
  | cons s ss => rfl

theorem ofChars_eq (cs : List Char) :
    ofChars cs =
      if trim cs = [] then .error .empty
      else if "" ∈ pieces cs then .error (.emptySegment (String.ofList (trim cs)))
      else
        match ofSegments? (pieces cs) with
        | some m => .ok m
        | none => .error .empty := by
  have hsegments : (((trim cs).splitOn '.').map trim).map String.ofList = pieces cs := by
    rw [← Text.pieces_trim cs, pieces, List.map_map]
    rfl
  have hempty : (((trim cs).splitOn '.').map trim).any List.isEmpty = true ↔ "" ∈ pieces cs := by
    rw [← hsegments, List.any_eq_true, List.mem_map]
    constructor
    · rintro ⟨piece, hpiece, hnil⟩
      exact ⟨piece, hpiece, by rw [List.isEmpty_iff.mp hnil]⟩
    · rintro ⟨piece, hpiece, hnil⟩
      exact ⟨piece, hpiece, by simpa using hnil⟩
  by_cases htrim : trim cs = []
  · have hblank : (trim cs).isEmpty = true := List.isEmpty_iff.mpr htrim
    rw [ofChars, if_pos hblank, if_pos htrim]
  · have hblank : ¬ (trim cs).isEmpty = true := fun h => htrim (List.isEmpty_iff.mp h)
    rw [ofChars, if_neg hblank, if_neg htrim]
    by_cases hpiece : "" ∈ pieces cs
    · rw [if_pos (hempty.mpr hpiece), if_pos hpiece]
    · rw [if_neg fun h => hpiece (hempty.mp h), if_neg hpiece]
      cases hname : ofSegments? (pieces cs) with
      | none => rw [hsegments, hname]
      | some m => rw [hsegments, hname]

theorem ofChars_eq_ok_iff {cs : List Char} {m : ModuleName} :
    ofChars cs = .ok m ↔ "" ∉ pieces cs ∧ m.segments = pieces cs := by
  rw [ofChars_eq]
  by_cases htrim : trim cs = []
  · have hdot : '.' ∉ cs := fun h => absurd (Text.trim_eq_nil_iff.mp htrim _ h) (by decide)
    rw [if_pos htrim, Text.pieces_of_not_mem hdot, htrim]
    simp
  · rw [if_neg htrim, ← ofSegments?_eq_some_iff]
    by_cases hempty : "" ∈ pieces cs
    · simp [hempty]
    · rw [if_neg hempty]
      cases ofSegments? (pieces cs) with
      | none => simp
      | some m' => simp [hempty]

/-- Of a text with an empty piece, nothing at all is left if it has no other. -/
theorem ofChars_eq_error {cs : List Char} (h : "" ∈ pieces cs) :
    ofChars cs = .error (if (pieces cs).length = 1 then .empty
      else .emptySegment (String.ofList (trim cs))) := by
  have hlength : (pieces cs).length = 1 ↔ '.' ∉ cs := Text.length_pieces_eq_one_iff
  rw [ofChars_eq]
  by_cases hdot : '.' ∈ cs
  · have htrim : trim cs ≠ [] := fun hnil =>
      absurd (Text.trim_eq_nil_iff.mp hnil _ hdot) (by decide)
    rw [if_neg htrim, if_pos h, if_neg fun hone => hlength.mp hone hdot]
  · rw [Text.pieces_of_not_mem hdot, List.mem_singleton] at h
    have htrim : trim cs = [] := by
      rw [← String.toList_ofList (l := trim cs), ← h]
      rfl
    rw [if_pos htrim, if_pos (hlength.mpr hdot)]

end ModuleName

theorem NamePattern.display_ofName (name : String) : (ofName name).display = name := by
  by_cases h : name = "_"
  · rw [ofName, if_pos h, h]
    rfl
  · rw [ofName, if_neg h]
    rfl

namespace Signature

theorem splitAtLastDot_eq_none {cs : List Char} (h : '.' ∉ cs) : splitAtLastDot cs = none := by
  induction cs with
  | nil => rfl
  | cons c cs ih =>
    rw [List.mem_cons, not_or] at h
    rw [splitAtLastDot, ih h.2, if_neg (Ne.symm h.1)]

theorem splitAtLastDot_append {after : List Char} (h : '.' ∉ after) (before : List Char) :
    splitAtLastDot (before ++ '.' :: after) = some (before, after) := by
  induction before with
  | nil => rw [List.nil_append, splitAtLastDot, splitAtLastDot_eq_none h, if_pos rfl]
  | cons c before ih => rw [List.cons_append, splitAtLastDot, ih]

theorem ofChars_of_not_mem {cs : List Char} (hdot : '.' ∉ cs) (htrim : trim cs ≠ []) :
    ofChars cs = .ok (unqualified (String.ofList (trim cs))) := by
  have hdot' : '.' ∉ trim cs := fun h => hdot ((Text.trim_sublist cs).subset h)
  have hempty : (trim cs).isEmpty = false := by simpa using htrim
  simp only [ofChars, hempty, splitAtLastDot_eq_none hdot']
  rfl

/-- Around the last dot, the blanks at the ends of a text belong to the name and to the module. -/
theorem ofChars_append_dot {after : List Char} (h : '.' ∉ after) (before : List Char) :
    ofChars (before ++ '.' :: after) =
      if trim after = [] then
        .error (.missingName (String.ofList (trim (before ++ '.' :: after))))
      else
        match ModuleName.ofChars before with
        | .ok module => .ok (qualified module (String.ofList (trim after)))
        | .error cause =>
          .error (.invalidModule (String.ofList (trim (before ++ '.' :: after))) cause) := by
  have htext := Text.trim_append_cons (c := '.') (by decide) before after
  have hempty : (trim (before ++ '.' :: after)).isEmpty = false := by simp [htext]
  have hafter : '.' ∉ after.rdropWhile Text.isBlank :=
    fun hdot => h ((Text.rdropWhile_sublist after).subset hdot)
  have hmodule : ModuleName.ofChars (before.dropWhile Text.isBlank) =
      ModuleName.ofChars before := by
    rw [ModuleName.ofChars_eq, Text.trim_dropWhile, Text.pieces_dropWhile, ← ModuleName.ofChars_eq]
  have hsplit : splitAtLastDot (trim (before ++ '.' :: after)) =
      some (before.dropWhile Text.isBlank, after.rdropWhile Text.isBlank) := by
    rw [htext, splitAtLastDot_append hafter]
  simp only [ofChars, hempty, hsplit, Text.trim_rdropWhile, hmodule, List.isEmpty_iff]
  rfl

/-- Reading a text that is not blank: its last piece is the name, the others are the module. -/
theorem ofChars_eq_of_pieces {cs : List Char} (htrim : trim cs ≠ []) {init : List String}
    {name : String} (hpieces : pieces cs = init ++ [name]) :
    ofChars cs =
      if name = "" then .error (.missingName (String.ofList (trim cs)))
      else if "" ∈ init then
        .error (.invalidModule (String.ofList (trim cs)) (if init.length = 1 then .empty
          else .emptySegment (String.ofList (trim (beforeLastDot cs)))))
      else .ok ⟨ModuleName.ofSegments? init, .ofName name⟩ := by
  by_cases hdot : '.' ∈ cs
  · obtain ⟨before, after, rfl, hafter⟩ := Text.exists_last_dot hdot
    rw [Text.pieces_append_dot, Text.pieces_of_not_mem hafter] at hpieces
    obtain ⟨rfl, rfl⟩ := List.append_singleton_inj.mp hpieces
    rw [ofChars_append_dot hafter, Text.beforeLastDot_append hafter]
    by_cases hnil : trim after = []
    · rw [if_pos hnil, if_pos (by rw [hnil])]
    · have hname : String.ofList (trim after) ≠ "" := by simpa using hnil
      rw [if_neg hnil, if_neg hname]
      by_cases hempty : "" ∈ pieces before
      · rw [ModuleName.ofChars_eq_error hempty, if_pos hempty]
      · obtain ⟨m, hm⟩ : ∃ m, ModuleName.ofSegments? (pieces before) = some m := by
          cases hsegments : pieces before with
          | nil => exact absurd hsegments (Text.pieces_ne_nil before)
          | cons first rest => exact ⟨⟨first, rest⟩, rfl⟩
        have hok := ModuleName.ofChars_eq_ok_iff.mpr
          ⟨hempty, ModuleName.ofSegments?_eq_some_iff.mp hm⟩
        rw [hok, if_neg hempty, hm]
        rfl
  · rw [Text.pieces_of_not_mem hdot] at hpieces
    obtain ⟨rfl, rfl⟩ : [] = init ∧ String.ofList (trim cs) = name := by
      rw [← List.nil_append [String.ofList (trim cs)]] at hpieces
      exact List.append_singleton_inj.mp hpieces
    have hne : String.ofList (trim cs) ≠ "" := by simpa using htrim
    rw [ofChars_of_not_mem hdot htrim, if_neg hne, if_neg List.not_mem_nil]
    rfl

/-- What a text can be: blank, without a name, with an empty piece before the name, or a
signature. -/
theorem ofText_cases (s : String) :
    (trim s.toList = [] ∧ pieces s.toList = [""] ∧ ofText s = .error .empty) ∨
    (trim s.toList ≠ [] ∧ ∃ init, pieces s.toList = init ++ [""] ∧
      ofText s = .error (.missingName (Text.trimmed s))) ∨
    (trim s.toList ≠ [] ∧ ∃ init name, pieces s.toList = init ++ [name] ∧ name ≠ "" ∧ "" ∈ init ∧
      ofText s = .error (.invalidModule (Text.trimmed s) (if init.length = 1 then .empty
        else .emptySegment (String.ofList (trim (beforeLastDot s.toList)))))) ∨
    (trim s.toList ≠ [] ∧ ∃ init name, pieces s.toList = init ++ [name] ∧ name ≠ "" ∧ "" ∉ init ∧
      ofText s = .ok ⟨ModuleName.ofSegments? init, .ofName name⟩) := by
  by_cases htrim : trim s.toList = []
  · have hdot : '.' ∉ s.toList := fun h => absurd (Text.trim_eq_nil_iff.mp htrim _ h) (by decide)
    refine Or.inl ⟨htrim, ?_, ?_⟩
    · rw [Text.pieces_of_not_mem hdot, htrim]
    · simp [ofText, ofChars, htrim]
  · refine Or.inr ?_
    obtain ⟨init, name, hpieces⟩ : ∃ init name, pieces s.toList = init ++ [name] :=
      ⟨_, _, (List.dropLast_concat_getLast (Text.pieces_ne_nil s.toList)).symm⟩
    have hread := ofChars_eq_of_pieces htrim hpieces
    by_cases hname : name = ""
    · rw [if_pos hname] at hread
      exact Or.inl ⟨htrim, init, hname ▸ hpieces, hread⟩
    · rw [if_neg hname] at hread
      refine Or.inr ?_
      by_cases hempty : "" ∈ init
      · rw [if_pos hempty] at hread
        exact Or.inl ⟨htrim, init, name, hpieces, hname, hempty, hread⟩
      · rw [if_neg hempty] at hread
        exact Or.inr ⟨htrim, init, name, hpieces, hname, hempty, hread⟩

theorem ofText_eq_ok_iff {s : String} {sig : Signature} :
    ofText s = .ok sig ↔ "" ∉ pieces s.toList ∧
      ∃ init name, pieces s.toList = init ++ [name] ∧
        sig = ⟨ModuleName.ofSegments? init, .ofName name⟩ := by
  rcases ofText_cases s with ⟨-, hpieces, hread⟩ | ⟨-, init, hpieces, hread⟩ |
      ⟨-, init, name, hpieces, -, hempty, hread⟩ | ⟨-, init, name, hpieces, hname, hempty, hread⟩
  · simp [hread, hpieces]
  · simp [hread, hpieces]
  · simp [hread, hpieces, hempty]
  · rw [hread, hpieces]
    constructor
    · intro hok
      refine ⟨?_, init, name, rfl, (Except.ok.inj hok).symm⟩
      simp [hempty, Ne.symm hname]
    · rintro ⟨-, init', name', hsame, rfl⟩
      obtain ⟨rfl, rfl⟩ := List.append_singleton_inj.mp hsame
      rfl

/-- The texts that a signature is made of: the segments of its module and its name. -/
def parts (sig : Signature) : List String :=
  (sig.module?.map ModuleName.segments).getD [] ++ [sig.name.display]

theorem parts_mk_ofSegments? (init : List String) (name : String) :
    parts ⟨ModuleName.ofSegments? init, .ofName name⟩ = init ++ [name] := by
  rw [parts, NamePattern.display_ofName]
  cases init with
  | nil => rfl
  | cons first rest => rfl

theorem display_eq_intercalate (sig : Signature) : sig.display = ".".intercalate sig.parts := by
  obtain ⟨module?, name⟩ := sig
  cases module? with
  | none => exact String.intercalate_singleton.symm
  | some m =>
    have hne : m.segments ≠ [] := List.cons_ne_nil m.first m.rest
    change m.display ++ "." ++ name.display = ".".intercalate (m.segments ++ [name.display])
    rw [String.intercalate_append_of_ne_nil hne (List.cons_ne_nil _ _),
      String.intercalate_singleton]
    rfl

theorem clean_parts_of_ofText {s : String} {sig : Signature} (h : ofText s = .ok sig) :
    ∀ p ∈ sig.parts, Clean p := by
  obtain ⟨hempty, init, name, hpieces, rfl⟩ := ofText_eq_ok_iff.mp h
  rw [parts_mk_ofSegments?, ← hpieces]
  intro p hp
  exact Text.clean_of_mem_pieces hp fun hp' => hempty (hp' ▸ hp)

theorem ofText_display_of_clean {sig : Signature} (init : List String) (name : String)
    (hsig : sig = ⟨ModuleName.ofSegments? init, .ofName name⟩) (h : ∀ p ∈ sig.parts, Clean p) :
    ofText sig.display = .ok sig := by
  have hparts : sig.parts = init ++ [name] := by rw [hsig, parts_mk_ofSegments?]
  have hpieces : pieces sig.display.toList = init ++ [name] := by
    rw [display_eq_intercalate, Text.pieces_intercalate (by simp [hparts]) h, hparts]
  rw [ofText_eq_ok_iff, hpieces]
  refine ⟨fun hempty => ?_, init, name, rfl, hsig⟩
  rw [← hparts] at hempty
  exact (h "" hempty).ne_empty rfl

/-- A signature is read back from its own text exactly if it is made of clean texts. Whatever a text
stands for is made of clean texts, so reading, writing and reading again changes nothing. -/
theorem ofText_display :
    (∀ name, ofText (unqualified name).display = .ok (unqualified name) ↔ Clean name) ∧
    (∀ module name, ofText (qualified module name).display = .ok (qualified module name) ↔
      Clean name ∧ ∀ segment ∈ module.segments, Clean segment) ∧
    ∀ s sig, ofText s = .ok sig →
      ((∃ name, sig = unqualified name ∧ Clean name) ∨
        ∃ module name, sig = qualified module name ∧ Clean name ∧
          ∀ segment ∈ module.segments, Clean segment) ∧
      ofText sig.display = .ok sig := by
  have hunqualified : ∀ name, (∀ p ∈ (unqualified name).parts, Clean p) ↔ Clean name := by
    intro name
    change (∀ p ∈ parts ⟨ModuleName.ofSegments? [], .ofName name⟩, Clean p) ↔ Clean name
    rw [parts_mk_ofSegments?]
    simp
  have hqualified : ∀ module name, (∀ p ∈ (qualified module name).parts, Clean p) ↔
      Clean name ∧ ∀ segment ∈ module.segments, Clean segment := by
    intro module name
    change (∀ p ∈ parts ⟨ModuleName.ofSegments? module.segments, .ofName name⟩, Clean p) ↔ _
    rw [parts_mk_ofSegments?]
    simp [or_imp, forall_and, and_comm]
  refine ⟨fun name => ?_, fun module name => ?_, fun s sig h => ?_⟩
  · rw [← hunqualified name]
    exact ⟨clean_parts_of_ofText, ofText_display_of_clean [] name rfl⟩
  · rw [← hqualified module name]
    exact ⟨clean_parts_of_ofText, ofText_display_of_clean module.segments name rfl⟩
  · obtain ⟨-, init, name, -, hsig⟩ := ofText_eq_ok_iff.mp h
    have hclean := clean_parts_of_ofText h
    refine ⟨?_, ofText_display_of_clean init name hsig hclean⟩
    rw [hsig] at hclean
    cases init with
    | nil => exact Or.inl ⟨name, hsig, (hunqualified name).mp hclean⟩
    | cons first rest =>
      exact Or.inr ⟨⟨first, rest⟩, name, hsig, (hqualified ⟨first, rest⟩ name).mp hclean⟩

theorem ofText_display_spaced :
    let sig := qualified ⟨"Foo", ["Bar"]⟩ "_"
    ofText " Foo.\tBar . _" = .ok sig ∧ ofText sig.display = .ok sig := by
  intro sig
  have hread : ofText " Foo.\tBar . _" = .ok sig := by decide
  exact ⟨hread, (ofText_display.2.2 _ sig hread).2⟩

end Signature

end CallAudit
