import CallAudit.Number.Numeral

/-!
# Tokens of a data text

A text is split into tokens by an automaton that reads one character at a time. Where a text stops
being made of tokens, the list of tokens ends with a fault, so that everything before that place can
still be read.

Two kinds of token are well formed without having a value: a number beyond the largest double, and a
text with half of a surrogate pair. A reader that only passes over a value accepts them.

## Main definitions

* `Json.Token`: the tokens.
* `Json.Scan`: a state of the automaton, and `Scan.step` its reaction to a character.
* `Json.Token.scan`: the tokens of a text.
* `Json.Token.spelling`: the written form of a token.
-/

namespace CallAudit.Json

/-- A token of a data text. -/
inductive Token where
  | null
  | bool (value : Bool)
  | number (value : Option Number)
  | text (value : Option String)
  | openArray
  | closeArray
  | openObject
  | closeObject
  | comma
  | colon
  | fault
  deriving DecidableEq

/-- Where the automaton stands inside an escape of a text. -/
inductive Escape where
  | none
  /-- After the backslash. -/
  | started
  /-- After the backslash and the `u`, with digits still to come. -/
  | hex (due : Nat) (code : Nat)
  deriving DecidableEq

/-- A text in the course of being read. -/
structure OpenText where
  /-- The characters so far, the last one first. -/
  chars : List Char := []
  /-- The first half of a surrogate pair, if it was read last. -/
  half : Option Nat := none
  /-- Whether every half of a pair found its other half. -/
  paired : Bool := true
  escape : Escape := .none
  deriving DecidableEq

/-- Where the automaton stands inside a number. -/
inductive Phase where
  /-- After the minus sign. -/
  | sign
  /-- After a whole part that is just a zero. -/
  | leadingZero
  | whole
  /-- After the point. -/
  | point
  | fraction
  /-- After the letter of the exponent. -/
  | mark
  /-- After the sign of the exponent. -/
  | markSign
  | exponent
  deriving DecidableEq

/-- What the automaton is reading. -/
inductive Mode where
  /-- Between two tokens. -/
  | between
  /-- A word with the letters still to come, and its token. -/
  | word (due : List Char) (token : Token)
  | text (text : OpenText)
  /-- A number; the digit lists of the numeral hold the last digit first. -/
  | number (phase : Phase) (numeral : Numeral)
  /-- Behind a fault. -/
  | stopped
  deriving DecidableEq

/-- A state of the automaton: the tokens so far, the last one first, and what is being read. -/
structure Scan where
  tokens : List Token := []
  mode : Mode := .between
  deriving DecidableEq

/-- The value of a hexadecimal digit. -/
def hexValue? (c : Char) : Option Nat :=
  if '0' ≤ c ∧ c ≤ '9' then some (c.toNat - '0'.toNat)
  else if 'a' ≤ c ∧ c ≤ 'f' then some (c.toNat - 'a'.toNat + 10)
  else if 'A' ≤ c ∧ c ≤ 'F' then some (c.toNat - 'A'.toNat + 10)
  else none

/-- The value of a decimal digit. -/
def digitValue (c : Char) : Nat := c.toNat - '0'.toNat

namespace OpenText

/-- The text with one more character. -/
def push (t : OpenText) (c : Char) : OpenText :=
  { t with chars := c :: t.chars, half := none, paired := t.paired && t.half.isNone,
           escape := .none }

/-- The text with the code unit of a `\u` escape added: the second half of a pair completes the
first, and a half without its other half leaves the text unpaired. -/
def pushUnit (t : OpenText) (unit : Nat) : OpenText :=
  if 0xD800 ≤ unit ∧ unit < 0xDC00 then
    { t with half := some unit, paired := t.paired && t.half.isNone, escape := .none }
  else if 0xDC00 ≤ unit ∧ unit < 0xE000 then
    match t.half with
    | some high =>
      { t with chars := Char.ofNat (0x10000 + (high - 0xD800) * 0x400 + (unit - 0xDC00)) :: t.chars,
               half := none, escape := .none }
    | none => { t with paired := false, escape := .none }
  else t.push (Char.ofNat unit)

/-- The character that a letter stands for after a backslash. -/
def escaped? (c : Char) : Option Char :=
  if c = '"' ∨ c = '\\' ∨ c = '/' then some c
  else if c = 'b' then some '\x08'
  else if c = 'f' then some '\x0c'
  else if c = 'n' then some '\n'
  else if c = 'r' then some '\r'
  else if c = 't' then some '\t'
  else none

/-- The token of a text that is complete. -/
def token (t : OpenText) : Token :=
  .text (if t.paired && t.half.isNone then some (String.ofList t.chars.reverse) else none)

end OpenText

/-- The numeral whose digit lists were collected with the last digit first. -/
def uprightNumeral (n : Numeral) : Numeral :=
  { n with whole := n.whole.reverse, fraction := n.fraction.reverse,
           exponent := n.exponent.reverse }

namespace Scan

/-- The state after a fault. -/
def fail (s : Scan) : Scan := ⟨.fault :: s.tokens, .stopped⟩

/-- The state after a complete token. -/
def emit (s : Scan) (token : Token) : Scan := ⟨token :: s.tokens, .between⟩

/-- The state with another mode. -/
def turn (s : Scan) (mode : Mode) : Scan := { s with mode := mode }

/-- The reaction to a character between two tokens. -/
def stepBetween (s : Scan) (c : Char) : Scan :=
  if c = ' ' ∨ c = '\t' ∨ c = '\n' ∨ c = '\r' then s.turn .between
  else if c = '[' then s.emit .openArray
  else if c = ']' then s.emit .closeArray
  else if c = '\x7b' then s.emit .openObject
  else if c = '\x7d' then s.emit .closeObject
  else if c = ',' then s.emit .comma
  else if c = ':' then s.emit .colon
  else if c = '"' then s.turn (.text {})
  else if c = '-' then s.turn (.number .sign { negative := true })
  else if c = '0' then s.turn (.number .leadingZero { whole := [0] })
  else if c.isDigit then s.turn (.number .whole { whole := [digitValue c] })
  else if c = 'n' then s.turn (.word ['u', 'l', 'l'] .null)
  else if c = 't' then s.turn (.word ['r', 'u', 'e'] (.bool true))
  else if c = 'f' then s.turn (.word ['a', 'l', 's', 'e'] (.bool false))
  else s.fail

/-- The reaction to a character inside a word. -/
def stepWord (s : Scan) (due : List Char) (token : Token) (c : Char) : Scan :=
  match due with
  | [] => s.fail
  | d :: due =>
    if c ≠ d then s.fail
    else if due = [] then s.emit token
    else s.turn (.word due token)

/-- The reaction to a character inside a text. -/
def stepText (s : Scan) (t : OpenText) (c : Char) : Scan :=
  match t.escape with
  | .none =>
    if c = '"' then s.emit t.token
    else if c = '\\' then s.turn (.text { t with escape := .started })
    else if c.toNat < 0x20 then s.fail
    else s.turn (.text (t.push c))
  | .started =>
    if c = 'u' then s.turn (.text { t with escape := .hex 4 0 })
    else
      match OpenText.escaped? c with
      | some d => s.turn (.text (t.push d))
      | none => s.fail
  | .hex due code =>
    match hexValue? c with
    | none => s.fail
    | some v =>
      if due ≤ 1 then s.turn (.text (t.pushUnit (code * 16 + v)))
      else s.turn (.text { t with escape := .hex (due - 1) (code * 16 + v) })

/-- The state after a complete number. -/
def emitNumber (s : Scan) (n : Numeral) : Scan :=
  s.emit (.number (uprightNumeral n).value?)

/-- The reaction to a character that may follow the whole part or the fraction of a number. -/
def stepTail (s : Scan) (n : Numeral) (pointAllowed : Bool) (c : Char) : Scan :=
  if c = '.' ∧ pointAllowed then s.turn (.number .point n)
  else if c = 'e' ∨ c = 'E' then s.turn (.number .mark n)
  else (s.emitNumber n).stepBetween c

/-- The reaction to a digit of the exponent, or to what stands in its place. -/
def stepExponent (s : Scan) (n : Numeral) (c : Char) : Scan :=
  if c.isDigit then s.turn (.number .exponent { n with exponent := digitValue c :: n.exponent })
  else s.fail

/-- The reaction to a character inside a number. -/
def stepNumber (s : Scan) (phase : Phase) (n : Numeral) (c : Char) : Scan :=
  match phase with
  | .sign =>
    if c = '0' then s.turn (.number .leadingZero { n with whole := [0] })
    else if c.isDigit then s.turn (.number .whole { n with whole := [digitValue c] })
    else s.fail
  | .leadingZero => if c.isDigit then s.fail else s.stepTail n true c
  | .whole =>
    if c.isDigit then s.turn (.number .whole { n with whole := digitValue c :: n.whole })
    else s.stepTail n true c
  | .point =>
    if c.isDigit then s.turn (.number .fraction { n with fraction := [digitValue c] })
    else s.fail
  | .fraction =>
    if c.isDigit then s.turn (.number .fraction { n with fraction := digitValue c :: n.fraction })
    else s.stepTail n false c
  | .mark =>
    if c = '+' then s.turn (.number .markSign n)
    else if c = '-' then s.turn (.number .markSign { n with exponentNegative := true })
    else s.stepExponent n c
  | .markSign => s.stepExponent n c
  | .exponent =>
    if c.isDigit then s.stepExponent n c else (s.emitNumber n).stepBetween c

/-- The reaction to a character. -/
def step (s : Scan) (c : Char) : Scan :=
  match s.mode with
  | .between => s.stepBetween c
  | .word due token => s.stepWord due token c
  | .text t => s.stepText t c
  | .number phase n => s.stepNumber phase n c
  | .stopped => s

/-- The tokens at the end of the text. A token that is not complete is a fault. -/
def finish (s : Scan) : List Token :=
  match s.mode with
  | .between => s.tokens.reverse
  | .stopped => s.tokens.reverse
  | .number phase n =>
    if phase = .leadingZero ∨ phase = .whole ∨ phase = .fraction ∨ phase = .exponent then
      (s.emitNumber n).tokens.reverse
    else s.fail.tokens.reverse
  | _ => s.fail.tokens.reverse

end Scan

namespace Token

/-- The tokens of a text. -/
def scan (cs : List Char) : List Token :=
  (cs.foldl Scan.step {}).finish

/-- The form of a character inside a written text. Quotes, backslashes and the characters below the
space are escaped, all others stand for themselves. -/
def escapeChar (c : Char) : List Char :=
  if c = '"' then ['\\', '"']
  else if c = '\\' then ['\\', '\\']
  else if c = '\x08' then ['\\', 'b']
  else if c = '\x0c' then ['\\', 'f']
  else if c = '\n' then ['\\', 'n']
  else if c = '\r' then ['\\', 'r']
  else if c = '\t' then ['\\', 't']
  else if c.toNat < 0x20 then
    ['\\', 'u', '0', '0', Nat.digitChar (c.toNat / 16), Nat.digitChar (c.toNat % 16)]
  else [c]

/-- A text in quotes. -/
def textSpelling (s : String) : List Char :=
  '"' :: s.toList.flatMap escapeChar ++ ['"']

/-- The written form of a token; a token without a value has none. -/
def spelling : Token → List Char
  | .null => ['n', 'u', 'l', 'l']
  | .bool true => ['t', 'r', 'u', 'e']
  | .bool false => ['f', 'a', 'l', 's', 'e']
  | .number (some n) => n.text
  | .text (some s) => textSpelling s
  | .openArray => ['[']
  | .closeArray => [']']
  | .openObject => ['\x7b']
  | .closeObject => ['\x7d']
  | .comma => [',']
  | .colon => [':']
  | .number none | .text none | .fault => []

end Token

end CallAudit.Json
