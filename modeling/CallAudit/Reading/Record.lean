import CallAudit.Reading.Fault

/-!
# Records in a text

A record is written as an object of its fields by name, or as an array of its fields in order. By
name, unknown fields are passed over and a field must not be repeated; by position, fields may be
left off at the end if they have a default.

A description of a record reads one field after the other into a draft and then makes the record out
of the draft. The same description serves values that were read completely and documents that may
break off.

## Main definitions

* `Reading.Record`: the description of a record with fields in values of type `σ`.
* `Reading.Record.ofMembers`, `Reading.Record.ofItems`: a record from an object and from an array.
-/

namespace CallAudit.Reading

variable {σ δ α : Type}

/-- The description of a record of type `α` with a draft of type `δ`. -/
structure Record (σ δ α : Type) where
  /-- The title of the record in messages. -/
  title : String
  /-- The draft with the defaults of all fields. -/
  blank : δ
  /-- The names of the fields in order, and how a field goes into the draft. -/
  fields : List (String × (σ → δ → Except Fault δ))
  /-- The record of a draft. The first argument makes a fault of the place and name of a field that
  is required and still missing. -/
  finish : (Nat → String → Fault) → δ → Except Fault α

namespace Record

/-- The number of fields. -/
def size (r : Record σ δ α) : Nat := r.fields.length

/-- The fault for a missing field of a record given by position. -/
def lackOfItem (r : Record σ δ α) (place : Nat) (_name : String) : Fault :=
  .wrongLength place (.fields r.title r.size)

/-- The fault for a missing field of a record given by name. -/
def lackOfMember (_place : Nat) (name : String) : Fault := .missingField name

/-- A draft and the names of the fields that are in it. -/
abbrev Draft (δ : Type) := δ × List String

/-- The draft with a known field added. -/
def add (draft : Draft δ) (name : String) (read : σ → δ → Except Fault δ) (value : σ) :
    Except Fault (Draft δ) :=
  (read value draft.1).map fun filled => (filled, name :: draft.2)

/-- The draft after a member of an object. -/
def addMember (r : Record σ δ α) (draft : Draft δ) (member : String × σ) :
    Except Fault (Draft δ) :=
  match r.fields.lookup member.1 with
  | none => .ok draft
  | some read =>
    if draft.2.contains member.1 then .error (.duplicateField member.1)
    else add draft member.1 read member.2

/-- The record of an object. -/
def ofMembers (r : Record σ δ α) (members : List (String × σ)) : Except Fault α := do
  let draft ← members.foldlM r.addMember (r.blank, [])
  r.finish lackOfMember draft.1

/-- The draft after the items of an array, as many as there are fields for. -/
def addItems (r : Record σ δ α) (items : List σ) : Except Fault δ :=
  (r.fields.zip items).foldlM (fun draft (field, item) => field.2 item draft) r.blank

/-- The record of an array. -/
def ofItems (r : Record σ δ α) (items : List σ) : Except Fault α := do
  let draft ← r.addItems items
  let record ← r.finish r.lackOfItem draft
  if items.length ≤ r.size then .ok record
  else .error (.wrongLength items.length (.items r.size))

end Record

end CallAudit.Reading
