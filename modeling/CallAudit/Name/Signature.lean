import CallAudit.Name.Module

/-!
# Function signatures

A signature describes the function that is looked for: the name of the function or a wildcard, and
the module it belongs to, if that matters. Its text is the name alone or the name behind the module
and a dot; the wildcard is written as an underscore.

## Main definitions

* `NamePattern`: a function name or the wildcard.
* `Signature`: a pattern with an optional module.
* `Signature.ofText`: the signature that a text stands for, or why it stands for none.
* `Signature.display`: the text of a signature.
-/

namespace CallAudit

/-- Which function names are meant. -/
inductive NamePattern where
  | exactly (name : String)
  | any
  deriving DecidableEq, Repr

namespace NamePattern

/-- The pattern for a name; the underscore stands for every name. -/
def ofName (name : String) : NamePattern := if name = "_" then .any else .exactly name

/-- The text of a pattern. -/
def display : NamePattern → String
  | .exactly name => name
  | .any => "_"

/-- Whether a call of `name` is meant. -/
def admits : NamePattern → String → Bool
  | .exactly expected, name => expected == name
  | .any, _ => true

/-- Whether the pattern is the name itself; the wildcard is no name. -/
def isName : NamePattern → String → Bool
  | .exactly expected, name => expected == name
  | .any, _ => false

end NamePattern

/-- A function to look for. -/
structure Signature where
  module? : Option ModuleName
  name : NamePattern
  deriving DecidableEq, Repr

namespace Signature

/-- Why a text is no signature. -/
inductive Error where
  | empty
  | missingName (text : String)
  | invalidModule (text : String) (cause : ModuleName.Error)
  deriving DecidableEq, Repr

/-- The wording of an error. -/
def Error.message : Error → String
  | .empty => "Function signature is empty"
  | .missingName text => "Function signature '" ++ text ++ "' has no function name"
  | .invalidModule text cause => "Invalid module in signature '" ++ text ++ "': " ++ cause.message

/-- The signature of a function without its module. -/
def unqualified (name : String) : Signature := ⟨none, .ofName name⟩

/-- The signature of a function of a module. -/
def qualified (module : ModuleName) (name : String) : Signature := ⟨some module, .ofName name⟩

/-- The text of a signature. -/
def display (s : Signature) : String :=
  match s.module? with
  | some module => module.display ++ "." ++ s.name.display
  | none => s.name.display

/-- What stands before and after the last dot. -/
def splitAtLastDot : List Char → Option (List Char × List Char)
  | [] => none
  | c :: cs =>
    match splitAtLastDot cs with
    | some (before, after) => some (c :: before, after)
    | none => if c = '.' then some ([], cs) else none

/-- The signature with the characters `cs` as its text. -/
def ofChars (cs : List Char) : Except Error Signature :=
  let text := Text.trim cs
  if text.isEmpty then .error .empty
  else
    match splitAtLastDot text with
    | none => .ok (unqualified (String.ofList text))
    | some (before, after) =>
      let name := Text.trim after
      if name.isEmpty then .error (.missingName (String.ofList text))
      else
        match ModuleName.ofChars before with
        | .ok module => .ok (qualified module (String.ofList name))
        | .error cause => .error (.invalidModule (String.ofList text) cause)

/-- The signature that a text stands for. -/
def ofText (s : String) : Except Error Signature := ofChars s.toList

end Signature

end CallAudit
