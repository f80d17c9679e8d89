import EntityQuery.Decimal.Double

/-! # Shortest decimals

The decimals that read back as a given double form an interval around it: halfway to the neighbour
below, halfway to the neighbour above, ends included when the significand is even. `Double.shortest`
looks for the coarsest grid of powers of ten with a point in that interval, and takes the point
nearest to the double. Everything is exact integer arithmetic. -/

namespace EntityQuery
set_option autoImplicit false

/-- A decimal `digits * 10 ^ exponent`. -/
structure Decimal where
  digits : Nat
  exponent : Int
deriving DecidableEq

/-- Where an exact tie between two neighbouring grid points goes. -/
inductive Tie where
  | up
  | even
deriving DecidableEq

/-- The reals that round to `mid / den`: from `low / den` to `high / den`. -/
structure RoundingInterval where
  low : Nat
  mid : Nat
  high : Nat
  den : Nat
  -- Whether the two ends belong to it.
  closed : Bool

namespace RoundingInterval

/-- Whether `d * 10 ^ e` lies in the interval. -/
def covers (i : RoundingInterval) (d : Nat) (e : Int) : Bool :=
  let x := d * Nat.pow 10 e.toNat * i.den
  let s := Nat.pow 10 (-e).toNat
  (i.low * s < x || i.closed && i.low * s == x) && (x < i.high * s || i.closed && x == i.high * s)

/-- The point of the grid `10 ^ e` in the interval that is nearest to the middle, if there is one.
Only the two neighbours of the middle have to be tried. -/
def nearest? (i : RoundingInterval) (tie : Tie) (e : Int) : Option Nat :=
  let step := Nat.pow 10 e.toNat * i.den
  let mid := i.mid * Nat.pow 10 (-e).toNat
  let d := mid / step
  match i.covers d e, i.covers (d + 1) e with
  | false, false => none
  | true, false => some d
  | false, true => some (d + 1)
  | true, true =>
    match compare (2 * mid) ((2 * d + 1) * step), tie with
    | .lt, _ => some d
    | .gt, _ => some (d + 1)
    | .eq, .up => some (d + 1)
    | .eq, .even => some (if d % 2 == 0 then d else d + 1)

end RoundingInterval

namespace Double

/-- The lowest bit of the exponent field, which is also the bit that normal numbers have in front of
their fraction. -/
def exponentUnit : Nat := 0x10000000000000

/-- The significand `m` and the exponent `q` with which a finite double is `± m * 2 ^ q`. -/
def significand (x : Double) : Nat × Int :=
  let e : Nat := x.magnitude / exponentUnit
  let f : Nat := x.magnitude % exponentUnit
  if e == 0 then (f, -1074) else (exponentUnit + f, (e : Int) - 1075)

/-- Whether the neighbour below is half as far away as the one above: so it is at a power of two
that is not the least normal one. -/
def narrowBelow (x : Double) : Bool :=
  x.magnitude % exponentUnit == 0 && 1 < x.magnitude / exponentUnit

/-- The reals that round to the absolute value of a finite double. -/
def rounding (x : Double) : RoundingInterval :=
  let (m, q) := x.significand
  let unit := Nat.pow 2 (q - 2).toNat
  { low := (4 * m - if x.narrowBelow then 1 else 2) * unit
    mid := 4 * m * unit
    high := (4 * m + 2) * unit
    den := Nat.pow 2 (2 - q).toNat
    closed := m % 2 == 0 }

/-- An exponent of ten with `10 ^ top` above the absolute value of a finite double. -/
def topExponent (x : Double) : Int :=
  let (m, q) := x.significand
  ((m.log2 : Int) + 1 + q) * 30103 / 100000 + 1

/-- The exact value as a decimal. -/
def exactDecimal (x : Double) : Decimal :=
  let i := x.rounding
  { digits := i.mid * Nat.pow 5 i.den.log2, exponent := -(i.den.log2 : Int) }

/-- The decimal with the fewest digits that reads back as the absolute value of a finite double
other than zero, and of those the nearest. Seventeen digits always suffice; the grids tried reach
further. -/
def shortest (x : Double) (tie : Tie) : Decimal :=
  let grids := (List.range 24).map fun k : Nat => x.topExponent - (k : Int)
  let found := grids.findSome? fun e => (x.rounding.nearest? tie e).map fun d => ⟨d, e⟩
  found.getD x.exactDecimal

end Double

end EntityQuery
