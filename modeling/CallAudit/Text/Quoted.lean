import CallAudit.Text.Shapeless

/-!
# Quoted texts in messages

A message quotes a text in double quotes. Quotes, backslashes and the usual control characters get
a backslash in front; a character that cannot be seen is shown as its code point in braces.

## Main definitions

* `Text.quoteChar`: how one character stands inside the quotes.
* `Text.quoted`: a whole text with its quotes.
-/

namespace CallAudit.Text

/-- The form of `c` inside a quoted text. -/
def quoteChar (c : Char) : List Char :=
  if c = '\x00' then ['\\', '0']
  else if c = '\t' then ['\\', 't']
  else if c = '\r' then ['\\', 'r']
  else if c = '\n' then ['\\', 'n']
  else if c = '\\' then ['\\', '\\']
  else if c = '"' then ['\\', '"']
  else if isShapeless c then ['\\', 'u', '\x7b'] ++ Nat.toDigits 16 c.toNat ++ ['\x7d']
  else [c]

/-- The text `s` in double quotes. -/
def quoted (s : String) : String :=
  String.ofList ('"' :: s.toList.flatMap quoteChar ++ ['"'])

end CallAudit.Text
