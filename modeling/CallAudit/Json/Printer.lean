import CallAudit.Json.Basic
import CallAudit.Json.Token

/-!
# Written values

A value is written compactly, as its tokens without anything between them, or laid out over several
lines with an indentation of two spaces for each level.

## Main definitions

* `Json.tokens`: the tokens of a value.
* `Json.compact`: the text without blanks.
* `Json.pretty`: the text laid out over lines.
-/

namespace CallAudit.Json

mutual

/-- The tokens of a value. -/
def tokens : Json → List Token
  | .null => [.null]
  | .bool value => [.bool value]
  | .number value => [.number (some value)]
  | .string value => [.text (some value)]
  | .array [] => [.openArray, .closeArray]
  | .array (item :: items) => .openArray :: (tokens item ++ tokensOfItems items) ++ [.closeArray]
  | .object [] => [.openObject, .closeObject]
  | .object ((key, value) :: members) =>
    .openObject :: .text (some key) :: .colon :: (tokens value ++ tokensOfMembers members) ++
      [.closeObject]
termination_by structural v => v

/-- The tokens of the items after the first. -/
def tokensOfItems : List Json → List Token
  | [] => []
  | item :: items => .comma :: (tokens item ++ tokensOfItems items)
termination_by structural items => items

/-- The tokens of the members after the first. -/
def tokensOfMembers : List (String × Json) → List Token
  | [] => []
  | (key, value) :: members =>
    .comma :: .text (some key) :: .colon :: (tokens value ++ tokensOfMembers members)
termination_by structural members => members

end

/-- The compact text of a value. -/
def compact (v : Json) : String :=
  String.ofList (v.tokens.flatMap Token.spelling)

/-- The start of a line at the given level. -/
def newLine (level : Nat) : List Char :=
  '\n' :: List.replicate (2 * level) ' '

mutual

/-- The laid out characters of a value whose lines start at the given level. -/
def layout (level : Nat) : Json → List Char
  | .null => Token.spelling .null
  | .bool value => Token.spelling (.bool value)
  | .number value => value.text
  | .string value => Token.textSpelling value
  | .array [] => ['[', ']']
  | .array (item :: items) =>
    '[' :: (newLine (level + 1) ++ layout (level + 1) item ++ layoutItems (level + 1) items) ++
      newLine level ++ [']']
  | .object [] => ['\x7b', '\x7d']
  | .object ((key, value) :: members) =>
    '\x7b' :: (newLine (level + 1) ++ Token.textSpelling key ++ [':', ' '] ++
      layout (level + 1) value ++ layoutMembers (level + 1) members) ++ newLine level ++ ['\x7d']
termination_by structural v => v

/-- The laid out items after the first, each on a new line behind a comma. -/
def layoutItems (level : Nat) : List Json → List Char
  | [] => []
  | item :: items => ',' :: (newLine level ++ layout level item ++ layoutItems level items)
termination_by structural items => items

/-- The laid out members after the first, each on a new line behind a comma. -/
def layoutMembers (level : Nat) : List (String × Json) → List Char
  | [] => []
  | (key, value) :: members =>
    ',' :: (newLine level ++ Token.textSpelling key ++ [':', ' '] ++ layout level value ++
      layoutMembers level members)
termination_by structural members => members

end

/-- The text of a value over several lines. -/
def pretty (v : Json) : String :=
  String.ofList (layout 0 v)

end CallAudit.Json
