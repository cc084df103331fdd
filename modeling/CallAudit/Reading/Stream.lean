import CallAudit.Json.Document
import CallAudit.Reading.Value

/-!
# Reading from documents

Readers that take what they look for out of a document in the order of its text. The first fault in
the text decides, so what comes before a broken place is still looked at. A value that nobody asks
for is only passed over.

## Main definitions

* `Json.Document.asText`, `asBoolean`, `asList`, `asOption`, `asSignature`: simple values.
* `Json.Document.asChoice`, `asRecord`: variants and records.
* `Json.Document.asValue`: the value of a complete document.
* `Json.Document.asTagged`: the root of a tree, whose tag is looked at as soon as it is met.
* `Reading.ofText`: a value read from a text that holds nothing else.
-/

namespace CallAudit.Json.Document

open Reading

variable {α δ : Type}

/-- The fault that a document is not of the expected type. -/
def mismatch (d : Document) (wanted : Wanted) : Fault :=
  match d with
  | .null => .wrongType .null wanted
  | .bool value => .wrongType (.boolean value) wanted
  | .number (some value) => .wrongType (Json.number value).found wanted
  | .text (some value) => .wrongType (.text value) wanted
  | .array _ _ => .wrongType .sequence wanted
  | .object _ _ => .wrongType .map wanted
  | .number none | .text none | .broken => .malformed

/-- The text that a document is. -/
def asText : Document → Except Fault String
  | .text (some value) => .ok value
  | d => .error (d.mismatch .text)

/-- The truth value that a document is. -/
def asBoolean : Document → Except Fault Bool
  | .bool value => .ok value
  | d => .error (d.mismatch .boolean)

/-- The document, unless it is null. -/
def asOption (read : Document → Except Fault α) : Document → Except Fault (Option α)
  | .null => .ok none
  | d => (read d).map some

/-- The list that a document is, its items read one after the other. -/
def asList (read : Document → Except Fault α) : Document → Except Fault (List α)
  | .array items closed => do
    let values ← items.mapM read
    if closed then .ok values else .error .malformed
  | d => .error (d.mismatch .sequence)

/-- The signature that a document is the text of. -/
def asSignature (d : Document) : Except Fault Signature := do
  let text ← d.asText
  (Signature.ofText text).mapError .badSignature

/-- The variant that a document is the name of. -/
def asVariant (options : List (String × α)) : Document → Except Fault α
  | .text (some name) => choose options name
  | d => .error (d.mismatch .variantName)

/-- Checks that a document is null. -/
def asUnit : Document → Except Fault Unit
  | .null => .ok ()
  | d => .error (d.mismatch .unit)

/-- The variant without a value that a document names, by a text or by an object with one key. -/
def asChoice (options : List (String × α)) : Document → Except Fault α
  | .text (some name) => choose options name
  | .object ((name, value) :: members) closed => do
    let variant ← name.asVariant options
    value.asUnit
    if members.isEmpty && closed then .ok variant else .error .malformed
  | _ => .error .malformed

/-- The value of a document with containers nested at most `depth` deep. -/
def asValue (depth : Nat) (d : Document) : Except Fault Json :=
  match d.value? depth with
  | some value => .ok value
  | none => .error .malformed

/-- The draft after a member of an object. What belongs to no field must only be complete. -/
def addMember (r : Record Document δ α) (draft : Record.Draft δ) (member : Document × Document) :
    Except Fault (Record.Draft δ) :=
  match member.1 with
  | .text (some name) =>
    if (r.fields.lookup name).isSome || member.2.intact then r.addMember draft (name, member.2)
    else .error .malformed
  | _ => .error .malformed

/-- The record that a document is. -/
def asRecord (r : Record Document δ α) : Document → Except Fault α
  | .object members closed => do
    let draft ← members.foldlM (addMember r) (r.blank, [])
    if closed then r.finish Record.lackOfMember draft.1 else .error .malformed
  | .array items closed => do
    let draft ← r.addItems items
    let record ← r.finish r.lackOfItem draft
    if items.length ≤ r.size && closed then .ok record else .error .malformed
  | d => .error (d.mismatch (.record r.title))

/-- The draft after a member of a tagged object. The tag is looked at where it stands; the other
values must have containers nested at most `depth` deep. -/
def addTagged (depth : Nat) (tag : String) (options : List (String × α)) (draft : TagDraft α)
    (member : Document × Document) : Except Fault (TagDraft α) :=
  match member.1 with
  | .text (some name) =>
    if name = tag then
      match draft.1 with
      | some _ => .error (.duplicateField tag)
      | none => (member.2.asVariant options).map fun variant => (some variant, draft.2)
    else (member.2.asValue depth).map fun value => (draft.1, (name, value) :: draft.2)
  | _ => .error .malformed

/-- The variant of a family that a document is, with its fields. -/
def asTagged (depth : Nat) (tag family : String) (options : List (String × α)) :
    Document → Except Fault (α × Fields)
  | .object members closed => do
    let draft ← members.foldlM (addTagged (depth - 1) tag options) (none, [])
    if closed then TagDraft.finish tag draft else .error .malformed
  | .array [] closed => .error (if closed then .missingField tag else .malformed)
  | .array (first :: items) closed => do
    let variant ← first.asVariant options
    let values ← items.mapM (asValue (depth - 1))
    if closed then .ok (variant, .positional values) else .error .malformed
  | d => .error (d.mismatch (.tagged family))

end CallAudit.Json.Document

namespace CallAudit.Reading

/-- The value that `read` finds in a text. What stands behind the value is looked at last. -/
def ofText {α : Type} (read : Json.Document → Except Fault α) (s : String) : Except Fault α :=
  let (document, behind) := Json.Document.ofTokens (Json.Token.scan s.toList)
  match read document with
  | .ok value => if behind.isEmpty then .ok value else .error .malformed
  | .error fault => .error fault

end CallAudit.Reading
