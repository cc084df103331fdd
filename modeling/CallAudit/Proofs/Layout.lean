import CallAudit.Proofs.WrittenValue

/-!
# Values laid out over lines

A layout differs from the compact text by blanks alone, and it has them where the automaton of the
tokens passes over them: between two tokens, or behind a number that the end of a container is about
to end. The automaton therefore ends in the same state on both texts, and what is known of reading
the compact text holds of the layout.

## Main definitions

* `Json.LaidOut`: characters that have the effect of the spelling of some tokens.
* `Json.parse`: the value that a text holds.
* `Json.FitsIn`: values whose layout can be read back.

## Main statements

* `Json.LaidOut.container`: entries on lines of their own between two brackets.
* `Json.laidOut_layout`: the layout of a value.
* `Json.ofText_pretty`: a reader meets the document of the value that was laid out.
* `Json.parse_pretty`: a value is read back from its layout.
-/

namespace CallAudit.Json

open Token Scan

/-- Between two tokens, the characters have the effect of the spelling of the tokens. -/
def LaidOut (cs : List Char) (tokens : List Token) : Prop :=
  ∀ ts, cs.foldl step ⟨ts, .between⟩ = (tokens.flatMap spelling).foldl step ⟨ts, .between⟩

theorem LaidOut.single (token : Token) : LaidOut token.spelling [token] := by
  intro ts
  rw [List.flatMap_singleton]

section Blanks

variable {ts : List Token}

/-- A new line ends a number, and is passed over otherwise. -/
theorem foldl_newLine {s : Scan} (h : s.Yields ts) (level : Nat) :
    (newLine level).foldl step s = ⟨ts, .between⟩ := by
  have hfirst : s.step '\n' = ⟨ts, .between⟩ := by
    cases h with
    | between => rfl
    | number ts n hphase => rcases hphase with rfl | rfl <;> rfl
  have hspaces (n : Nat) : (List.replicate n ' ').foldl step ⟨ts, .between⟩ = ⟨ts, .between⟩ := by
    induction n with
    | zero => rfl
    | succ n ih =>
      rw [List.replicate_succ, List.foldl_cons]
      exact ih
  rw [newLine, List.foldl_cons, hfirst]
  exact hspaces (2 * level)

/-- A new line before the end of a container makes no difference. -/
theorem foldl_newLine_mark {s : Scan} (h : s.Yields ts) (level : Nat) {token : Token}
    (hmark : token ∈ [.comma, .closeArray, .closeObject]) :
    token.spelling.foldl step ((newLine level).foldl step s) = token.spelling.foldl step s := by
  rw [foldl_newLine h, h.foldl_mark hmark, (Yields.between ts).foldl_mark hmark]

end Blanks

/-! ### Entries of a container -/

section Entries

variable {α : Type} {chars : α → List Char} {tokens : α → List Token} {entries : List α}

/-- Entries behind commas and on lines of their own, where a number may have to be ended first. -/
theorem foldl_entries (hlegible : ∀ e ∈ entries, Legible (tokens e))
    (h : ∀ e ∈ entries, LaidOut (chars e) (tokens e)) (level : Nat) {s : Scan}
    {ts : List Token} (hs : s.Yields ts) :
    (entries.flatMap fun e => ',' :: (newLine level ++ chars e)).foldl step s =
      ((entries.flatMap fun e => .comma :: tokens e).flatMap spelling).foldl step s := by
  induction entries generalizing s ts with
  | nil => rfl
  | cons e entries ih =>
    have hcomma : spelling .comma = [','] := rfl
    have hmark : Token.comma ∈ [.comma, .closeArray, .closeObject] := by simp
    have hstep : s.step ',' = ⟨.comma :: ts, .between⟩ := hs.foldl_mark hmark
    have he := h e List.mem_cons_self (.comma :: ts)
    have hrest := ih (fun e' he' => hlegible e' (List.mem_cons_of_mem e he'))
      (fun e' he' => h e' (List.mem_cons_of_mem e he'))
      (hlegible e List.mem_cons_self (.comma :: ts))
    simp only [List.flatMap_cons, List.flatMap_append, List.foldl_append, List.cons_append,
      List.foldl_cons, hcomma, List.nil_append, hstep, foldl_newLine (.between _), he, hrest]

/-- Entries between two brackets, each on a line of its own, and the second bracket on another
line. -/
theorem LaidOut.container (opening closing : Token) {e : α}
    (hopen : ∀ ts, opening.spelling.foldl step ⟨ts, .between⟩ = ⟨opening :: ts, .between⟩)
    (hclose : closing ∈ [.comma, .closeArray, .closeObject])
    (hlegible : ∀ e' ∈ e :: entries, Legible (tokens e'))
    (h : ∀ e' ∈ e :: entries, LaidOut (chars e') (tokens e')) (level : Nat) :
    LaidOut
      (opening.spelling ++ (newLine (level + 1) ++ chars e ++
        entries.flatMap fun e' => ',' :: (newLine (level + 1) ++ chars e')) ++
        (newLine level ++ closing.spelling))
      (opening :: (tokens e ++ entries.flatMap fun e' => .comma :: tokens e') ++ [closing]) := by
  intro ts
  have hfirst := h e List.mem_cons_self (opening :: ts)
  have hothers := foldl_entries (fun e' he' => hlegible e' (List.mem_cons_of_mem e he'))
    (fun e' he' => h e' (List.mem_cons_of_mem e he')) (level + 1)
    (hlegible e List.mem_cons_self (opening :: ts))
  -- Behind the entries a number may be open, which the new line or the bracket ends.
  have hinner := legible_entries hlegible (opening :: ts)
  rw [List.flatMap_append, List.foldl_append] at hinner
  simp only [List.foldl_append, List.flatMap_append, List.flatMap_cons, List.flatMap_nil,
    List.append_nil, hopen, foldl_newLine (.between _), hfirst, hothers]
  exact foldl_newLine_mark hinner level hclose

end Entries

/-! ### The layout of a value -/

theorem layoutItems_eq_flatMap (level : Nat) (items : List Json) :
    layoutItems level items = items.flatMap fun v => ',' :: (newLine level ++ layout level v) := by
  induction items with
  | nil => rfl
  | cons item items ih =>
    rw [layoutItems, ih, List.flatMap_cons, List.cons_append]

/-- The layout of a member of an object. -/
def layoutMember (level : Nat) (member : String × Json) : List Char :=
  textSpelling member.1 ++ [':', ' '] ++ layout level member.2

theorem layoutMembers_eq_flatMap (level : Nat) (members : List (String × Json)) :
    layoutMembers level members =
      members.flatMap fun m => ',' :: (newLine level ++ layoutMember level m) := by
  induction members with
  | nil => rfl
  | cons member members ih =>
    simp only [layoutMembers, ih, layoutMember, List.flatMap_cons, List.cons_append,
      List.append_assoc]

theorem laidOut_layoutMember {level : Nat} {member : String × Json}
    (h : LaidOut (layout level member.2) member.2.tokens) :
    LaidOut (layoutMember level member) (tokensOfMember member) := by
  intro ts
  have hcolon : [':', ' '].foldl step ⟨.text (some member.1) :: ts, .between⟩ =
      ⟨.colon :: .text (some member.1) :: ts, .between⟩ := rfl
  have hspelling : (tokensOfMember member).flatMap spelling =
      textSpelling member.1 ++ ([':'] ++ member.2.tokens.flatMap spelling) := rfl
  rw [layoutMember, List.foldl_append, List.foldl_append, foldl_textSpelling, hcolon, h,
    hspelling, List.foldl_append, foldl_textSpelling, List.foldl_append]
  rfl

/-- The layout of a value is scanned like its tokens. -/
theorem laidOut_layout {v : Json} (h : v.Plain) (level : Nat) :
    LaidOut (layout level v) v.tokens := by
  induction v using parts_induction generalizing level with
  | value v ih =>
    have hlegible (w : Json) (hw : w ∈ v.parts) : Legible w.tokens := legible_tokens (h.part hw)
    have hparts (w : Json) (hw : w ∈ v.parts) : LaidOut (layout (level + 1) w) w.tokens :=
      ih w hw (h.part hw) (level + 1)
    cases v with
    | null => exact .single .null
    | bool value => exact .single (.bool value)
    | number value => exact .single (.number (some value))
    | string value => exact .single (.text (some value))
    | array items =>
      cases items with
      | nil => exact fun ts => rfl
      | cons item items =>
        have hall := LaidOut.container .openArray .closeArray (fun _ => rfl) (by simp) hlegible
          hparts level
        rw [layout, layoutItems_eq_flatMap, tokens, tokensOfItems_eq_flatMap, List.append_assoc]
        exact hall
    | object members =>
      cases members with
      | nil => exact fun ts => rfl
      | cons member members =>
        have hmembers (m : String × Json) (hm : m ∈ member :: members) :
            Legible (tokensOfMember m) :=
          legible_tokensOfMember (hlegible m.2 (List.mem_map_of_mem hm))
        have hlaid (m : String × Json) (hm : m ∈ member :: members) :
            LaidOut (layoutMember (level + 1) m) (tokensOfMember m) :=
          laidOut_layoutMember (hparts m.2 (List.mem_map_of_mem hm))
        have hall := LaidOut.container .openObject .closeObject (fun _ => rfl) (by simp) hmembers
          hlaid level
        have hlayout : layout level (.object (member :: members)) = spelling .openObject ++
            (newLine (level + 1) ++ layoutMember (level + 1) member ++ members.flatMap fun m =>
              ',' :: (newLine (level + 1) ++ layoutMember (level + 1) m)) ++
            (newLine level ++ spelling .closeObject) := by
          rw [layout, layoutMembers_eq_flatMap, layoutMember, ← List.append_assoc (newLine _),
            ← List.append_assoc (newLine _), List.append_assoc _ (newLine level)]
          rfl
        rw [hlayout, tokens, tokensOfMembers_eq_flatMap]
        exact hall

/-! ### Reading a layout -/

theorem scan_pretty {v : Json} (h : v.Plain) :
    Token.scan v.pretty.toList = Token.scan v.compact.toList := by
  rw [pretty, compact, String.toList_ofList, String.toList_ofList, Token.scan, Token.scan,
    laidOut_layout h 0 []]

/-- Whatever is read from the layout of a value is read from the document of the value. -/
theorem ofText_pretty {α : Type} {v : Json} (h : v.Plain)
    (read : Document → Except Reading.Fault α) :
    Reading.ofText read v.pretty = read v.document := by
  rw [← ofText_compact h read, Reading.ofText, Reading.ofText, scan_pretty h]

/-- The value that a text holds. -/
def parse (s : String) : Except Reading.Fault Json :=
  Reading.ofText (Document.asValue greatestDepth) s

/-- The value is plain, and at most `n` of its containers are nested in one another. -/
structure FitsIn (n : Nat) (v : Json) : Prop where
  plain : v.Plain
  depth_le : v.depth ≤ n

theorem FitsIn.mono {n k : Nat} {v : Json} (h : v.FitsIn n) (hle : n ≤ k) : v.FitsIn k :=
  ⟨h.plain, Nat.le_trans h.depth_le hle⟩

theorem parse_pretty {v : Json} (h : v.FitsIn greatestDepth) : parse v.pretty = .ok v := by
  rw [parse, ofText_pretty h.plain, Document.asValue, value?_document h.depth_le]

@[simp] theorem fitsIn_bool (n : Nat) (b : Bool) : FitsIn n (.bool b) :=
  ⟨plain_bool b, Nat.zero_le n⟩

@[simp] theorem fitsIn_string (n : Nat) (s : String) : FitsIn n (.string s) :=
  ⟨plain_string s, Nat.zero_le n⟩

@[simp] theorem fitsIn_array_iff {n : Nat} {items : List Json} :
    FitsIn (n + 1) (.array items) ↔ ∀ v ∈ items, FitsIn n v := by
  have hdepth : (Json.array items).depth ≤ n + 1 ↔ ∀ v ∈ items, v.depth ≤ n := by
    rw [depth, Nat.add_le_add_iff_right, depthOfItems_le_iff]
  constructor
  · intro h v hv
    exact ⟨plain_array_iff.mp h.plain v hv, hdepth.mp h.depth_le v hv⟩
  · intro h
    exact ⟨plain_array_iff.mpr fun v hv => (h v hv).plain, hdepth.mpr fun v hv => (h v hv).depth_le⟩

@[simp] theorem fitsIn_object_iff {n : Nat} {members : List (String × Json)} :
    FitsIn (n + 1) (.object members) ↔ ∀ m ∈ members, FitsIn n m.2 := by
  have hdepth : (Json.object members).depth ≤ n + 1 ↔ ∀ m ∈ members, m.2.depth ≤ n := by
    rw [depth, Nat.add_le_add_iff_right, depthOfMembers_eq, depthOfItems_le_iff,
      List.forall_mem_map]
  constructor
  · intro h m hm
    exact ⟨plain_object_iff.mp h.plain m hm, hdepth.mp h.depth_le m hm⟩
  · intro h
    exact ⟨plain_object_iff.mpr fun m hm => (h m hm).plain,
      hdepth.mpr fun m hm => (h m hm).depth_le⟩

end CallAudit.Json
