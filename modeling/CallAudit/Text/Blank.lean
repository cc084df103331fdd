/-!
# Blank characters

The characters with the Unicode property White_Space, and texts without the blanks at their ends.

## Main definitions

* `Text.isBlank`: the character class.
* `Text.trim`: a list of characters without its leading and trailing blanks.
* `Text.trimmed`: the same for a `String`.
-/

namespace CallAudit.Text

/-- Whether `c` has the property White_Space. -/
def isBlank (c : Char) : Bool :=
  let n := c.toNat
  (9 ≤ n && n ≤ 13) || n == 0x20 || n == 0x85 || n == 0xA0 || n == 0x1680 ||
    (0x2000 ≤ n && n ≤ 0x200A) || n == 0x2028 || n == 0x2029 || n == 0x202F ||
    n == 0x205F || n == 0x3000

/-- The characters `cs` without the blanks at both ends. -/
def trim (cs : List Char) : List Char :=
  ((cs.dropWhile isBlank).reverse.dropWhile isBlank).reverse

/-- The text `s` without the blanks at both ends. -/
def trimmed (s : String) : String :=
  String.ofList (trim s.toList)

end CallAudit.Text
