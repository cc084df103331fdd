import CallAudit.Reading.Record

/-!
# Reading from values

Readers that take what they look for out of a value that was read completely.

## Main definitions

* `Json.asText`, `Json.asArity`, `Json.asList`, `Json.asOption`, `Json.asModuleName`: simple values.
* `Json.asChoice`, `Json.asPayload`: variants that are a name, or a name with a value.
* `Json.asTagged`: variants that are told apart by a tag among their fields.
* `Json.asRecord`: records.
-/

namespace CallAudit.Json

open Reading

variable {α δ : Type}

/-- What a value is called in a message. -/
def found : Json → Found
  | .null => .null
  | .bool value => .boolean value
  | .number (.integer value) => .integer value
  | .number (.double value) => .double value
  | .string value => .text value
  | .array _ => .sequence
  | .object _ => .map

/-- The fault that a value is not of the expected type. -/
def mismatch (v : Json) (wanted : Wanted) : Fault := .wrongType v.found wanted

/-- The text that a value is. -/
def asText : Json → Except Fault String
  | .string value => .ok value
  | v => .error (v.mismatch .text)

/-- The number of arguments that a value is. -/
def asArity : Json → Except Fault Nat
  | .number (.integer (.ofNat value)) => .ok value
  | .number (.integer (.negSucc value)) => .error (.wrongValue (.integer (.negSucc value)) .arity)
  | v => .error (v.mismatch .arity)

/-- The list that a value is, its items read one after the other. -/
def asList (read : Json → Except Fault α) : Json → Except Fault (List α)
  | .array items => items.mapM read
  | v => .error (v.mismatch .sequence)

/-- The value, unless it is null. -/
def asOption (read : Json → Except Fault α) : Json → Except Fault (Option α)
  | .null => .ok none
  | v => (read v).map some

/-- All texts of a list, if it holds nothing else. -/
def texts? : List Json → Option (List String)
  | [] => some []
  | .string value :: items => (texts? items).map (value :: ·)
  | _ :: _ => none

/-- The module name that a value is: a dotted text, or a list of segments. -/
def asModuleName : Json → Except Fault ModuleName
  | .string value => (ModuleName.ofText value).mapError .badModuleName
  | .array items =>
    match texts? items with
    | some segments => (ModuleName.ofSegments segments).mapError .badModuleName
    | none => .error .notAModuleName
  | _ => .error .notAModuleName

/-- Checks that the value beside the name of a variant without a value is null or holds nothing. -/
def asUnit : Json → Except Fault Unit
  | .null => .ok ()
  | .object [] => .ok ()
  | v => .error (v.mismatch .unit)

/-- The variant without a value that a value names, by a text or by an object with one key. -/
def asChoice (options : List (String × α)) : Json → Except Fault α
  | .string name => choose options name
  | .object [(name, value)] => do
    let variant ← choose options name
    value.asUnit
    .ok variant
  | .object _ => .error (.wrongValue .map .singleKeyMap)
  | v => .error (v.mismatch .textOrMap)

/-- The variant with a value that an object with one key holds. -/
def asPayload (options : List (String × (Json → Except Fault α))) : Json → Except Fault α
  | .string name => do
    let _ ← choose options name
    .error (.wrongType .bareVariant .variantWithValue)
  | .object [(name, value)] => do
    let read ← choose options name
    read value
  | .object _ => .error (.wrongValue .map .singleKeyMap)
  | v => .error (v.mismatch .textOrMap)

/-- The record that a value is. -/
def asRecord (r : Record Json δ α) : Json → Except Fault α
  | .object members => r.ofMembers members
  | .array items => r.ofItems items
  | v => .error (v.mismatch (.record r.title))

/-- The fields of a tagged variant, by name or by position, without the tag. -/
inductive Fields where
  | named (members : List (String × Json))
  | positional (items : List Json)

/-- The record of the fields of a tagged variant. -/
def Fields.asRecord (r : Record Json δ α) : Fields → Except Fault α
  | .named members => r.ofMembers members
  | .positional items => r.ofItems items

/-- The variant that a tag stands for, by its name or by its place among the variants. -/
def asTag (options : List (String × α)) : Json → Except Fault α
  | .string name => choose options name
  | .number (.integer (.ofNat place)) =>
    match options[place]? with
    | some (_, variant) => .ok variant
    | none => .error (.wrongValue (.integer (.ofNat place)) (.variantIndex options.length))
  | v => .error (v.mismatch .variantName)

/-- The tag found so far and the members beside it, the last one first. -/
abbrev TagDraft (α : Type) := Option α × List (String × Json)

/-- The draft after a member of a tagged object. -/
def addTagged (tag : String) (options : List (String × α)) (draft : TagDraft α)
    (member : String × Json) : Except Fault (TagDraft α) :=
  if member.1 = tag then
    match draft.1 with
    | some _ => .error (.duplicateField tag)
    | none => (member.2.asTag options).map fun variant => (some variant, draft.2)
  else .ok (draft.1, member :: draft.2)

/-- The variant and the fields of a draft. -/
def TagDraft.finish (tag : String) (draft : TagDraft α) : Except Fault (α × Fields) :=
  match draft.1 with
  | some variant => .ok (variant, .named draft.2.reverse)
  | none => .error (.missingField tag)

/-- The variant of a family that a value is, with its fields. In an array the tag comes first. -/
def asTagged (tag family : String) (options : List (String × α)) :
    Json → Except Fault (α × Fields)
  | .object members => do
    let draft ← members.foldlM (addTagged tag options) (none, [])
    TagDraft.finish tag draft
  | .array [] => .error (.missingField tag)
  | .array (first :: items) => (first.asTag options).map fun variant => (variant, .positional items)
  | v => .error (v.mismatch (.tagged family))

end CallAudit.Json
