import CallAudit.Json.Basic
import CallAudit.Name.Signature
import CallAudit.Text.Quoted

/-!
# Reading faults

Why a text is not the value that was to be read from it. A fault of form says that the text is no
data text at all; every other fault says what was found and what was expected there.

## Main definitions

* `Reading.Found`, `Reading.Wanted`: what stands in the text, and what should stand there.
* `Reading.Fault`: the faults.
* `Reading.Fault.message`: their wording.
-/

namespace CallAudit.Reading

/-- What stands in a text where something else was expected. -/
inductive Found where
  | null
  | boolean (value : Bool)
  | integer (value : Int)
  | double (value : Double)
  | text (value : String)
  | sequence
  | map
  /-- A variant that is only a name. -/
  | bareVariant
  deriving DecidableEq, Repr

/-- The wording of what was found. -/
def Found.message : Found → String
  | .null => "null"
  | .boolean value => "boolean `" ++ (if value then "true" else "false") ++ "`"
  | .integer value => "integer `" ++ String.ofList (integerText value) ++ "`"
  | .double value => "floating point `" ++ String.ofList value.text ++ "`"
  | .text value => "string " ++ Text.quoted value
  | .sequence => "sequence"
  | .map => "map"
  | .bareVariant => "unit variant"

/-- A number of elements. -/
def elements (count : Nat) : String :=
  String.ofList (Nat.toDigits 10 count) ++ (if count = 1 then " element" else " elements")

/-- What was expected in a text. -/
inductive Wanted where
  | text
  | sequence
  | boolean
  | arity
  | unit
  | variantName
  | variantIndex (count : Nat)
  | textOrMap
  | singleKeyMap
  | variantWithValue
  /-- One of the variants of a family that are told apart by a tag. -/
  | tagged (family : String)
  /-- A record, by its full title. -/
  | record (title : String)
  /-- All fields of a record, given by position. -/
  | fields (title : String) (count : Nat)
  /-- As many items as were used. -/
  | items (count : Nat)
  deriving DecidableEq, Repr

/-- The wording of what was expected. -/
def Wanted.message : Wanted → String
  | .text => "a string"
  | .sequence => "a sequence"
  | .boolean => "a boolean"
  | .arity => "usize"
  | .unit => "unit"
  | .variantName => "variant identifier"
  | .variantIndex count => "variant index 0 <= i < " ++ String.ofList (Nat.toDigits 10 count)
  | .textOrMap => "string or map"
  | .singleKeyMap => "map with a single key"
  | .variantWithValue => "newtype variant"
  | .tagged family => "internally tagged enum " ++ family
  | .record title => title
  | .fields title count => title ++ " with " ++ elements count
  | .items count => elements count ++ " in sequence"

/-- Why reading failed. -/
inductive Fault where
  /-- The text is no data text. -/
  | malformed
  | wrongType (found : Found) (wanted : Wanted)
  | wrongValue (found : Found) (wanted : Wanted)
  | wrongLength (given : Nat) (wanted : Wanted)
  | unknownVariant (name : String) (known : List String)
  | missingField (name : String)
  | duplicateField (name : String)
  /-- A module name is neither a text nor a list of texts. -/
  | notAModuleName
  | badModuleName (cause : ModuleName.Error)
  | badSignature (cause : Signature.Error)
  deriving DecidableEq, Repr

/-- A list of alternatives: one, two joined by `or`, or all of them after `one of`. -/
def alternatives (names : List String) : String :=
  match names.map fun name => "`" ++ name ++ "`" with
  | [] => ""
  | [a] => a
  | [a, b] => a ++ " or " ++ b
  | names => "one of " ++ ", ".intercalate names

/-- The wording of a fault. -/
def Fault.message : Fault → String
  | .malformed => "syntax error"
  | .wrongType found wanted => "invalid type: " ++ found.message ++ ", expected " ++ wanted.message
  | .wrongValue found wanted => "invalid value: " ++ found.message ++ ", expected " ++ wanted.message
  | .wrongLength given wanted =>
    "invalid length " ++ String.ofList (Nat.toDigits 10 given) ++ ", expected " ++ wanted.message
  | .unknownVariant name known =>
    "unknown variant `" ++ name ++ "`, expected " ++ alternatives known
  | .missingField name => "missing field `" ++ name ++ "`"
  | .duplicateField name => "duplicate field `" ++ name ++ "`"
  | .notAModuleName => "data did not match any variant of untagged enum Repr"
  | .badModuleName cause => cause.message
  | .badSignature cause => cause.message

/-- The value that a name stands for among named values. -/
def choose {α : Type} (options : List (String × α)) (name : String) : Except Fault α :=
  match options.lookup name with
  | some value => .ok value
  | none => .error (.unknownVariant name (options.map Prod.fst))

end CallAudit.Reading
