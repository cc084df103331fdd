import CallAudit.Number.Double

/-!
# Shortest decimal digits of a double

The decimal text of a double has the fewest digits that still read back as the same double. Each
decimal grid `10 ^ k` is tried from coarse to fine; the first grid with a point in the interval of
reals that round to the double decides, and of two such points the nearer one.

## Main definitions

* `Decimal`: a number written as `digits · 10 ^ power`.
* `Magnitude.shortest`: the shortest decimal that rounds to a magnitude.
* `Decimal.text`: positional from `1e-5` up to `1e16`, and with an exponent beyond.
* `Double.text`: the text of a double, which always has a point or an exponent.
-/

namespace CallAudit

/-- The number `digits · 10 ^ power`. -/
structure Decimal where
  digits : Nat
  power : Int
  deriving DecidableEq, Repr

namespace Magnitude

/-- The grid step `10 ^ power` and a quarter of the last place of `x`, both as multiples of one
common unit. -/
def commonScale (x : Magnitude) (power : Int) : Nat × Nat :=
  let quarter := x.exponent - 2
  (Nat.pow 10 power.toNat * Nat.pow 2 (-quarter).toNat,
    Nat.pow 2 quarter.toNat * Nat.pow 10 (-power).toNat)

/-- The distance from `x` down to the numbers that round to its lower neighbour, in quarters of the
last place of `x`. The neighbour below a power of two is twice as near as the one above. -/
def reachBelow (x : Magnitude) : Nat :=
  if x.mantissa = Nat.pow 2 52 ∧ leastExponent < x.exponent then 1 else 2

/-- Whether `value` lies between `low` and `high`; the ends count if `closed` holds. -/
def within (closed : Bool) (low high value : Nat) : Bool :=
  if closed then low ≤ value && value ≤ high else low < value && value < high

/-- The point of the grid `10 ^ power` that stands for `x`, if one rounds to it. -/
def gridPoint (x : Magnitude) (power : Int) : Option Nat :=
  let (step, quarter) := x.commonScale power
  let value := 4 * x.mantissa * quarter
  let rounds (digits : Nat) : Bool :=
    within (x.mantissa % 2 == 0) ((4 * x.mantissa - x.reachBelow) * quarter)
      ((4 * x.mantissa + 2) * quarter) (digits * step)
  let below := value / step
  match rounds below, rounds (below + 1) with
  | true, true => some (divNearest value step)
  | true, false => some below
  | false, true => some (below + 1)
  | false, false => none

/-- The first grid point that stands for `x` among `count` grids, from `10 ^ power` downwards. -/
def searchGrids (x : Magnitude) : Nat → Int → Decimal
  | 0, power => ⟨0, power⟩
  | count + 1, power =>
    match x.gridPoint power with
    | some digits => ⟨digits, power⟩
    | none => x.searchGrids count (power - 1)

/-- The shortest decimal that rounds to `x`, which is not zero. The search starts at a power of ten
above `x` and needs at most seventeen digits. -/
def shortest (x : Magnitude) : Decimal :=
  x.searchGrids 20 (((Nat.log2 x.mantissa + x.exponent + 1) * 30103) / 100000 + 1)

end Magnitude

namespace Decimal

/-- The decimal `d` with a point or an exponent. With `p` digits before the point, `d` is written
positionally for `-5 < p ≤ 16`. -/
def text (d : Decimal) : List Char :=
  let ds := Nat.toDigits 10 d.digits
  let places : Int := ds.length + d.power
  if 0 ≤ d.power ∧ places ≤ 16 then
    ds ++ List.replicate d.power.toNat '0' ++ ['.', '0']
  else if 0 < places ∧ places ≤ 16 then
    ds.take places.toNat ++ '.' :: ds.drop places.toNat
  else if -5 < places ∧ places ≤ 0 then
    '0' :: '.' :: (List.replicate (-places).toNat '0' ++ ds)
  else
    let exponent := places - 1
    let mark := if exponent < 0 then ['e', '-'] else ['e', '+']
    let fraction := if ds.length = 1 then [] else '.' :: ds.drop 1
    ds.take 1 ++ fraction ++ mark ++ Nat.toDigits 10 exponent.natAbs

end Decimal

namespace Double

/-- The shortest text that reads back as `x`. -/
def text (x : Double) : List Char :=
  let sign := if x.negative then ['-'] else []
  if x.magnitude.mantissa = 0 then sign ++ ['0', '.', '0']
  else sign ++ x.magnitude.shortest.text

end Double

end CallAudit
