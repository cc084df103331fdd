import CallAudit.Text.Blank

/-!
# Module names

A module name such as `Foo.Bar.Baz` is a non-empty list of segments. Its text has a dot between the
segments; reading a text drops the blanks around the whole and around each segment.

## Main definitions

* `ModuleName`: the type, with its first segment and the segments after it.
* `ModuleName.ofText`: the name that a text stands for, or why it stands for none.
* `ModuleName.display`: the dotted text of a name.
* `ModuleName.without`: a name without the segments of another one.
-/

namespace CallAudit

/-- A non-empty list of segments. -/
structure ModuleName where
  first : String
  rest : List String
  deriving DecidableEq, Repr

namespace ModuleName

/-- Why segments or a text are no module name. -/
inductive Error where
  | empty
  | emptySegment (text : String)
  deriving DecidableEq, Repr

/-- The wording of an error. -/
def Error.message : Error → String
  | .empty => "Module path is empty"
  | .emptySegment text => "Module path '" ++ text ++ "' has an empty segment"

/-- The segments in order. -/
def segments (m : ModuleName) : List String := m.first :: m.rest

/-- The name with the given segments, if there are any. -/
def ofSegments? : List String → Option ModuleName
  | [] => none
  | first :: rest => some ⟨first, rest⟩

theorem ofSegments?_eq_none_iff {segments : List String} :
    ofSegments? segments = none ↔ segments = [] := by
  cases segments <;> simp [ofSegments?]

theorem ofSegments?_eq_some_iff {segments : List String} {m : ModuleName} :
    ofSegments? segments = some m ↔ m.segments = segments := by
  obtain ⟨first, rest⟩ := m
  cases segments with
  | nil => simp [ofSegments?, ModuleName.segments]
  | cons s ss => simp [ofSegments?, ModuleName.segments, eq_comm]

/-- The name of the module of an atom: one segment that starts with exactly one colon. -/
def atom (name : String) : ModuleName :=
  ⟨String.ofList (':' :: name.toList.dropWhile (· == ':')), []⟩

/-- The last segment. -/
def last (m : ModuleName) : String :=
  m.segments.getLast (List.cons_ne_nil m.first m.rest)

/-- The name that consists of the first segment. -/
def outermost (m : ModuleName) : ModuleName := ⟨m.first, []⟩

/-- The name that consists of the last segment. -/
def innermost (m : ModuleName) : ModuleName := ⟨m.last, []⟩

/-- The name with more segments behind it. -/
def extend (m : ModuleName) (more : List String) : ModuleName := ⟨m.first, m.rest ++ more⟩

/-- The segments of both names, one after the other. -/
def append (m n : ModuleName) : ModuleName := m.extend n.segments

theorem segments_append (m n : ModuleName) : (m.append n).segments = m.segments ++ n.segments := rfl

/-- The name without the segments of `n`: each of them takes away its first occurrence, if there is
one. Nothing is left of some names. -/
def without (m n : ModuleName) : Option ModuleName :=
  ofSegments? (n.segments.foldl List.erase m.segments)

/-- The dotted text. -/
def display (m : ModuleName) : String := ".".intercalate m.segments

/-- The name with the given segments, none of which may be empty. -/
def ofSegments (segments : List String) : Except Error ModuleName :=
  if segments.any String.isEmpty then .error (.emptySegment (".".intercalate segments))
  else
    match ofSegments? segments with
    | some m => .ok m
    | none => .error .empty

/-- The name with the characters `cs` as its text. -/
def ofChars (cs : List Char) : Except Error ModuleName :=
  let text := Text.trim cs
  let segments := (text.splitOn '.').map Text.trim
  if text.isEmpty then .error .empty
  else if segments.any List.isEmpty then .error (.emptySegment (String.ofList text))
  else
    match ofSegments? (segments.map String.ofList) with
    | some m => .ok m
    | none => .error .empty

/-- The name that a text stands for. -/
def ofText (s : String) : Except Error ModuleName := ofChars s.toList

/-- Names are ordered segment by segment, a name before its extensions. -/
def compareWith (m n : ModuleName) : Ordering := compare m.segments n.segments

end ModuleName

end CallAudit
