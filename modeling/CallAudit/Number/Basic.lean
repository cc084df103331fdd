import CallAudit.Number.Shortest

/-!
# Numbers of a data text

A number is a 64-bit integer, signed or unsigned, where it is written as one, and a double
otherwise.

## Main definitions

* `Number`: an integer or a double.
* `Number.text`: the written form of a number.
-/

namespace CallAudit

/-- A number as read from a text. -/
inductive Number where
  | integer (value : Int)
  | double (value : Double)
  deriving DecidableEq, Repr

/-- The decimal text of an integer. -/
def integerText : Int → List Char
  | .ofNat n => Nat.toDigits 10 n
  | .negSucc n => '-' :: Nat.toDigits 10 (n + 1)

/-- The written form of `n`. -/
def Number.text : Number → List Char
  | .integer value => integerText value
  | .double value => value.text

end CallAudit
