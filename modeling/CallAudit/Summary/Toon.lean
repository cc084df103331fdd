import CallAudit.Json.Basic
import CallAudit.Text.Blank
import CallAudit.Text.Digit

/-!
# Values in lines

A notation for values with few marks: one line for each plain field, deeper fields indented, and a
dash before each item of a list. The fields of an object stand in ascending order of their keys. A
text stands without quotes unless it could be taken for something else.

## Main definitions

* `Toon.isNumeric`, `Toon.needsQuotes`: which texts are quoted.
* `Toon.scalar`: a plain value.
* `Toon.encode`: the lines of an object.
-/

namespace CallAudit.Toon

/-- What is left behind at least one digit; none if there is no digit. -/
def afterDigits : List Char → Option (List Char)
  | [] => none
  | c :: cs => if Text.isDecimalDigit c then some (cs.dropWhile Text.isDecimalDigit) else none

/-- Whether the characters are an exponent, or nothing. -/
def isExponent : List Char → Bool
  | [] => true
  | 'e' :: '+' :: cs => afterDigits cs == some []
  | 'e' :: '-' :: cs => afterDigits cs == some []
  | 'e' :: cs => afterDigits cs == some []
  | _ :: _ => false

/-- Whether the characters are a fraction and an exponent, each of which may be missing. -/
def isFraction : List Char → Bool
  | '.' :: cs =>
    match afterDigits cs with
    | some rest => isExponent rest
    | none => false
  | cs => isExponent cs

/-- Whether a text looks like a number: digits, perhaps with a sign, a fraction and an exponent. -/
def isNumeric (cs : List Char) : Bool :=
  let unsigned := match cs with
    | '-' :: cs => cs
    | cs => cs
  match afterDigits unsigned with
  | some rest => isFraction rest
  | none => false

/-- The characters that a text without quotes must not hold. -/
def marks : List Char :=
  [':', '"', '\\', '[', ']', '\x7b', '\x7d', ',', '\n', '\r', '\t']

/-- Whether a text has to be quoted. -/
def needsQuotes (cs : List Char) : Bool :=
  cs.isEmpty || Text.trim cs != cs || cs == "true".toList || cs == "false".toList ||
    cs == "null".toList || isNumeric cs || cs.any marks.contains || ['-', ' '].isPrefixOf cs

/-- The form of a character inside quotes. -/
def escapeChar (c : Char) : List Char :=
  if c = '\\' then ['\\', '\\']
  else if c = '"' then ['\\', '"']
  else if c = '\n' then ['\\', 'n']
  else if c = '\r' then ['\\', 'r']
  else if c = '\t' then ['\\', 't']
  else [c]

/-- A text, in quotes where it has to be. -/
def quoteText (s : String) : List Char :=
  if needsQuotes s.toList then '"' :: s.toList.flatMap escapeChar ++ ['"'] else s.toList

/-- A plain value. -/
def scalar : Json → List Char
  | .null => "null".toList
  | .bool true => "true".toList
  | .bool false => "false".toList
  | .number value => value.text
  | .string value => quoteText value
  | .array _ => []
  | .object _ => []

/-- A line moved one level deeper. -/
def indent (line : List Char) : List Char := ' ' :: ' ' :: line

/-- Lines behind a dash, aligned with the first of them. -/
def hang : List (List Char) → List (List Char)
  | [] => [['-']]
  | line :: lines => ('-' :: ' ' :: line) :: lines.map indent

mutual

/-- The lines of a field. -/
def fieldLines (key : String) : Json → List (List Char)
  | .object members => (key.toList ++ [':']) :: (memberLines members).map indent
  | .array items =>
    (key.toList ++ '[' :: Nat.toDigits 10 items.length ++ [']', ':']) ::
      (itemLines items).map indent
  | .null => [key.toList ++ [':', ' '] ++ scalar .null]
  | .bool value => [key.toList ++ [':', ' '] ++ scalar (.bool value)]
  | .number value => [key.toList ++ [':', ' '] ++ scalar (.number value)]
  | .string value => [key.toList ++ [':', ' '] ++ scalar (.string value)]
termination_by structural v => v

/-- The lines of the fields of an object. -/
def memberLines : List (String × Json) → List (List Char)
  | [] => []
  | (key, value) :: members => fieldLines key value ++ memberLines members
termination_by structural members => members

/-- The lines of the items of a list of objects or plain values. -/
def itemLines : List Json → List (List Char)
  | [] => []
  | .object members :: items => hang (memberLines members) ++ itemLines items
  | .array inner :: items => hang (itemLines inner) ++ itemLines items
  | item :: items => hang [scalar item] ++ itemLines items
termination_by structural items => items

end

/-- The lines of a value, with ascending keys. -/
def encode (v : Json) : String :=
  match v.canonical with
  | .object members => String.ofList (['\n'].intercalate (memberLines members))
  | v => String.ofList (scalar v)

end CallAudit.Toon
