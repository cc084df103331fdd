import CallAudit.Number.Basic

/-!
# Numerals

The digits of a written number and the number they stand for. The digits are collected into a
significand of 64 bits. The whole digits that no longer fit only raise the power of ten, the
fraction digits that no longer fit are dropped. A numeral with a fraction or an exponent is the
double nearest to the significand, multiplied or divided once by the double nearest to the power of
ten.

## Main definitions

* `Numeral`: sign, whole digits, fraction digits and exponent of a written number.
* `Numeral.value?`: the number it stands for; none if it is beyond the largest double.
-/

namespace CallAudit

/-- A written number. Without a point `fraction` is empty, without an exponent `exponent` is. -/
structure Numeral where
  negative : Bool := false
  whole : List Nat := []
  fraction : List Nat := []
  exponentNegative : Bool := false
  exponent : List Nat := []
  deriving DecidableEq, Repr

namespace Numeral

/-- The bound of significands. -/
def significandBound : Nat := Nat.pow 2 64

/-- The largest exponent that is computed with; beyond it a number is zero or out of range. -/
def greatestExponent : Nat := Nat.pow 2 31 - 1

/-- Appends digits to a significand while they fit, and gives the digits that are left. -/
def collect (significand : Nat) : List Nat → Nat × List Nat
  | [] => (significand, [])
  | d :: ds =>
    if significand * 10 + d < significandBound then collect (significand * 10 + d) ds
    else (significand, d :: ds)

/-- The natural number with the decimal digits `ds`. -/
def ofDigits (ds : List Nat) : Nat :=
  ds.foldl (fun n d => n * 10 + d) 0

/-- The double nearest to `10 ^ power`. -/
def powerOfTen (power : Nat) : Option Magnitude :=
  Magnitude.nearest (Nat.pow 10 power) 1

/-- `x / 10 ^ power`, in steps of at most `10 ^ 308`. -/
def lower (x : Magnitude) (power : Nat) : Option Magnitude :=
  if power ≤ 308 then powerOfTen power >>= x.div
  else if x.mantissa = 0 then some x
  else (powerOfTen 308 >>= x.div) >>= fun y => lower y (power - 308)
termination_by power

/-- `x · 10 ^ power`, for a power of at most 308 or a zero. -/
def raise (x : Magnitude) (power : Nat) : Option Magnitude :=
  if power ≤ 308 then powerOfTen power >>= x.mul
  else if x.mantissa = 0 then some x
  else none

/-- The double for `significand · 10 ^ power`. -/
def scale (significand : Nat) (power : Int) : Option Magnitude := do
  let x ← Magnitude.nearest significand 1
  if power < 0 then lower x (-power).toNat else raise x power.toNat

/-- The double for `significand · 10 ^ power` times the power of ten given by the exponent of
`n`. -/
def withExponent (n : Numeral) (significand : Nat) (power : Int) : Option Magnitude :=
  let exponent := ofDigits n.exponent
  if greatestExponent < exponent then
    if significand ≠ 0 ∧ ¬ n.exponentNegative then none else some .zero
  else scale significand (if n.exponentNegative then power - exponent else power + exponent)

/-- The number that `n` stands for; none if it is beyond the largest double. A numeral that is only
a sign and whole digits is an integer if it fits and is not a negative zero. -/
def value? (n : Numeral) : Option Number :=
  let (significand, beyond) := collect 0 n.whole
  if n.fraction = [] ∧ n.exponent = [] ∧ beyond = [] ∧
      ¬ (n.negative ∧ (significand = 0 ∨ Nat.pow 2 63 < significand)) then
    some (.integer (if n.negative then -significand else significand))
  else
    let (full, dropped) := collect significand n.fraction
    let taken := n.fraction.length - dropped.length
    (n.withExponent full ((beyond.length : Int) - taken)).map fun x => .double ⟨n.negative, x⟩

end Numeral

end CallAudit
