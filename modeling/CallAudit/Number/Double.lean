/-!
# Doubles

Finite binary floating-point numbers of 64 bits, as exact fractions. The arithmetic computes the
exact result as a fraction of naturals and then rounds it once, to the nearest double and, between
two equally near ones, to the one with the even mantissa.

## Main definitions

* `Magnitude`: a non-negative double as `mantissa · 2 ^ exponent`.
* `Magnitude.nearest`: the magnitude nearest to a fraction, if it is in range.
* `Magnitude.mul`, `Magnitude.div`: rounded products and quotients.
* `Double`: a magnitude with a sign; zero has both signs.
-/

namespace CallAudit

/-- The number `mantissa · 2 ^ exponent`. The magnitudes built here have a mantissa below `2 ^ 53`,
and below `2 ^ 52` only with the least exponent. -/
structure Magnitude where
  mantissa : Nat
  exponent : Int
  deriving DecidableEq, Repr

namespace Magnitude

/-- The exponent of the numbers closest to zero. -/
def leastExponent : Int := -1074

/-- The exponent of the largest numbers. -/
def greatestExponent : Int := 971

/-- The magnitude zero. -/
def zero : Magnitude := ⟨0, leastExponent⟩

/-- The quotient `num / den` rounded to the nearest natural number, a half to the even one. -/
def divNearest (num den : Nat) : Nat :=
  let low := num / den
  let twice := 2 * (num % den)
  if den < twice || (twice == den && low % 2 == 1) then low + 1 else low

/-- The fraction `num / den` divided by `2 ^ exponent`. -/
def scaled (num den : Nat) (exponent : Int) : Nat × Nat :=
  if exponent < 0 then (num * Nat.pow 2 (-exponent).toNat, den)
  else (num, den * Nat.pow 2 exponent.toNat)

/-- The exponent that leaves 53 bits before the point of `num / den`, or the least exponent. -/
def exponentFor (num den : Nat) : Int :=
  let guess : Int := (Nat.log2 num : Int) - Nat.log2 den - 53
  let (n, d) := scaled num den guess
  max leastExponent (if n < d * Nat.pow 2 53 then guess else guess + 1)

/-- The magnitude nearest to `num / den`; none if it lies beyond the largest one. -/
def nearest (num den : Nat) : Option Magnitude :=
  if num = 0 then some zero
  else
    let exponent := exponentFor num den
    let (n, d) := scaled num den exponent
    let mantissa := divNearest n d
    let rounded : Magnitude :=
      if mantissa = Nat.pow 2 53 then ⟨Nat.pow 2 52, exponent + 1⟩ else ⟨mantissa, exponent⟩
    if rounded.exponent ≤ greatestExponent then some rounded else none

/-- The fraction that `x` stands for. -/
def fraction (x : Magnitude) : Nat × Nat :=
  scaled x.mantissa 1 (-x.exponent)

/-- The rounded product of two magnitudes; none if it is out of range. -/
def mul (x y : Magnitude) : Option Magnitude :=
  let (a, b) := x.fraction
  let (c, d) := y.fraction
  nearest (a * c) (b * d)

/-- The rounded quotient of two magnitudes, the second not zero; none if it is out of range. -/
def div (x y : Magnitude) : Option Magnitude :=
  let (a, b) := x.fraction
  let (c, d) := y.fraction
  nearest (a * d) (b * c)

end Magnitude

/-- A finite double: a magnitude and a sign. -/
structure Double where
  negative : Bool
  magnitude : Magnitude
  deriving DecidableEq, Repr

end CallAudit
