import CallAudit.Json.Basic
import CallAudit.Json.Token

/-!
# Documents

A document is a data text read as far as it goes. Every text has one: where it stops being a data
text, the value that was due there is broken, and so are the containers around it. A reader that
takes a document in the order of the text meets the broken place only after everything before it, so
it can tell which of two faults comes first.

## Main definitions

* `Json.Document`: a value that may break off.
* `Json.Document.ofTokens`: the first document of a list of tokens and the tokens behind it.
* `Json.Document.intact`: whether a document does not break off.
* `Json.Document.value?`: the value of an intact document whose parts all have values, if its
  containers are nested within a given depth.
-/

namespace CallAudit.Json

/-- A data text as far as it goes. A container that is not closed breaks off behind its last item.
The key of a member is a text, or else the token that stands in its place, and then the member
breaks off there. -/
inductive Document where
  | null
  | bool (value : Bool)
  | number (value : Option Number)
  | text (value : Option String)
  | array (items : List Document) (closed : Bool)
  | object (members : List (Document × Document)) (closed : Bool)
  | broken
  deriving Inhabited

namespace Document

/-- A container in the course of being read, with its parts so far, the last one first. -/
inductive Frame where
  | array (items : List Document)
  | object (members : List (Document × Document))
  /-- An object after a key. -/
  | member (members : List (Document × Document)) (key : Document)

/-- What may come next. -/
inductive Due where
  | value
  /-- An item, or the end of an array that has none. -/
  | firstItem
  /-- A key, or the end of an object that has none. -/
  | firstKey
  | key
  | colon
  /-- A comma, or the end of the container. -/
  | more

/-- The document that results where a text breaks off inside the given frames: each of them stays
open around what stands inside it. -/
def abandon (inner : Document) : List Frame → Document
  | [] => inner
  | .array items :: frames => abandon (.array (inner :: items).reverse false) frames
  | .object members :: frames => abandon (.object members.reverse false) frames
  | .member members key :: frames => abandon (.object ((key, inner) :: members).reverse false) frames

/-- The document that a token is by itself, or opens. -/
def ofToken : Token → Document
  | .null => .null
  | .bool value => .bool value
  | .number value => .number value
  | .text value => .text value
  | .openArray => .array [] false
  | .openObject => .object [] false
  | .closeArray | .closeObject | .comma | .colon | .fault => .broken

/-- The step that follows a complete value inside the given frames: it joins the innermost one. -/
def settle (value : Document) : List Frame → Option (List Frame)
  | [] => none
  | .array items :: frames => some (.array (value :: items) :: frames)
  | .object members :: frames => some (.object members :: frames)
  | .member members key :: frames => some (.object ((key, value) :: members) :: frames)

/-- What one token does to what is being read. -/
inductive Move where
  /-- Go on with these frames. -/
  | go (due : Due) (frames : List Frame)
  /-- A value is complete. -/
  | complete (value : Document) (frames : List Frame)
  /-- The text breaks off. -/
  | stop (frames : List Frame)

/-- The move where a value is due. -/
def moveValue (frames : List Frame) : Token → Move
  | .null => .complete .null frames
  | .bool value => .complete (.bool value) frames
  | .number value => .complete (.number value) frames
  | .text value => .complete (.text value) frames
  | .openArray => .go .firstItem (.array [] :: frames)
  | .openObject => .go .firstKey (.object [] :: frames)
  | _ => .stop frames

/-- The move where a key is due. What is not a text breaks the object off as its key. -/
def moveKey (frames : List Frame) (token : Token) : Move :=
  match frames, token with
  | .object members :: frames, .text value => .go .colon (.member members (.text value) :: frames)
  | .object members :: frames, token => .stop (.member members (ofToken token) :: frames)
  | frames, _ => .stop frames

/-- The move after a part of a container. -/
def moveMore (frames : List Frame) (token : Token) : Move :=
  match frames, token with
  | .array items :: frames, .comma => .go .value (.array items :: frames)
  | .array items :: frames, .closeArray => .complete (.array items.reverse true) frames
  | .object members :: frames, .comma => .go .key (.object members :: frames)
  | .object members :: frames, .closeObject => .complete (.object members.reverse true) frames
  | frames, _ => .stop frames

/-- The move that a token makes. -/
def move (due : Due) (frames : List Frame) (token : Token) : Move :=
  match due with
  | .value => moveValue frames token
  | .firstItem => if token = .closeArray then moveMore frames token else moveValue frames token
  | .firstKey => if token = .closeObject then moveMore frames token else moveKey frames token
  | .key => moveKey frames token
  | .colon => if token = .colon then .go .value frames else .stop frames
  | .more => moveMore frames token

/-- Reads on inside the given frames until the outermost value is complete or the text breaks off,
and gives the tokens behind. -/
def assemble (due : Due) (frames : List Frame) : List Token → Document × List Token
  | [] => (abandon .broken frames, [])
  | token :: tokens =>
    match move due frames token with
    | .go due frames => assemble due frames tokens
    | .complete value frames =>
      match settle value frames with
      | none => (value, tokens)
      | some frames => assemble .more frames tokens
    | .stop frames => (abandon .broken frames, token :: tokens)

/-- The first document of the tokens, and the tokens behind it. -/
def ofTokens (tokens : List Token) : Document × List Token :=
  assemble .value [] tokens

mutual

/-- Whether the document does not break off. Numbers beyond all doubles and texts with half a
surrogate pair are accepted. -/
def intact : Document → Bool
  | .array items closed => closed && intactItems items
  | .object members closed => closed && intactMembers members
  | .broken => false
  | .null | .bool _ | .number _ | .text _ => true
termination_by structural d => d

/-- Whether all items are intact. -/
def intactItems : List Document → Bool
  | [] => true
  | item :: items => intact item && intactItems items
termination_by structural items => items

/-- Whether all members are intact. -/
def intactMembers : List (Document × Document) → Bool
  | [] => true
  | (_, value) :: members => intact value && intactMembers members
termination_by structural members => members

end

mutual

/-- The value of a document whose containers are nested at most `depth` deep; none if it breaks off,
is nested deeper, or has a part without a value. -/
def value? (depth : Nat) : Document → Option Json
  | .null => some .null
  | .bool value => some (.bool value)
  | .number value => value.map .number
  | .text value => value.map .string
  | .array items closed =>
    if closed ∧ 0 < depth then (values? (depth - 1) items).map .array else none
  | .object members closed =>
    if closed ∧ 0 < depth then (members? (depth - 1) members).map .object else none
  | .broken => none
termination_by structural d => d

/-- The values of all items. -/
def values? (depth : Nat) : List Document → Option (List Json)
  | [] => some []
  | item :: items =>
    match value? depth item, values? depth items with
    | some value, some values => some (value :: values)
    | _, _ => none
termination_by structural items => items

/-- The keys and values of all members. -/
def members? (depth : Nat) : List (Document × Document) → Option (List (String × Json))
  | [] => some []
  | (key, value) :: members =>
    match key, value? depth value, members? depth members with
    | .text (some key), some value, some members => some ((key, value) :: members)
    | _, _, _ => none
termination_by structural members => members

end

end Document

/-- The greatest number of containers that may be nested in one another. -/
def greatestDepth : Nat := 127

end CallAudit.Json
