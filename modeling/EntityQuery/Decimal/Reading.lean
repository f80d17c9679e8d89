import EntityQuery.Decimal.Double

/-! # Reading decimals

A decimal numeral is read by taking its leading digits as far as they fit 64 bits, rounding them to
a double, and scaling by a power of ten, with one rounding a step. So up to fifteen digits and
twenty-two places are read exactly; longer numerals may be off in the last bit. -/

namespace EntityQuery
set_option autoImplicit false

/-- A numeral: sign, digits before the point, digits after it and exponent, each as written. -/
structure Numeral where
  negative : Bool
  whole : List Nat
  fraction : Option (List Nat)
  exponent : Option Int
deriving DecidableEq

namespace Numeral

/-- The largest significand kept. -/
def significandLimit : Nat := 0xFFFFFFFFFFFFFFFF

/-- Appends digits before the point to a significand as long as they fit; the second component
counts those dropped. -/
def takeWhole : Nat → List Nat → Nat × Nat
  | n, [] => (n, 0)
  | n, d :: ds =>
    if n * 10 + d ≤ significandLimit then takeWhole (n * 10 + d) ds else (n, ds.length + 1)

/-- Appends digits after the point to a significand as long as they fit; the second component
counts those taken. -/
def takeFraction : Nat → List Nat → Nat × Nat
  | n, [] => (n, 0)
  | n, d :: ds =>
    if n * 10 + d ≤ significandLimit then
      let (n', k) := takeFraction (n * 10 + d) ds
      (n', k + 1)
    else (n, 0)

/-- The power of ten nearest to `10 ^ e`. -/
def powerOfTen (e : Nat) : Float := Float.ofScientific 1 false e

/-- Divides by `10 ^ e`, at most 308 powers of ten at a time, and stops at zero. -/
def scaleDown (x : Float) (e : Nat) : Float :=
  if e ≤ 308 then x / powerOfTen e
  else if x == 0 then x
  else scaleDown (x / powerOfTen 308) (e - 308)
termination_by e
decreasing_by omega

/-- Multiplies by `10 ^ e`, or `none` if the result is out of range. -/
def scaleUp? (x : Float) (e : Nat) : Option Float :=
  if e ≤ 308 then
    let y := x * powerOfTen e
    if y.isInf then none else some y
  else if x == 0 then some x
  else none

/-- The double read from the numeral, or `none` if it is out of range. -/
def toDouble? (n : Numeral) : Option Double := do
  let (significand, dropped) := takeWhole 0 n.whole
  let (significand, taken) := takeFraction significand (n.fraction.getD [])
  let e : Int := dropped - taken + n.exponent.getD 0
  let x := Float.ofScientific significand false 0
  let y ← if 0 ≤ e then scaleUp? x e.toNat else some (scaleDown x (-e).toNat)
  Double.ofFloat? (if n.negative then -y else y)

/-- The value of the digits before the point. -/
def wholeValue (n : Numeral) : Nat := n.whole.foldl (fun v d => v * 10 + d) 0

/-- The integer that a numeral without point and exponent stands for. Minus zero is none. -/
def toInt? (n : Numeral) : Option Int :=
  match n.fraction, n.exponent with
  | none, none =>
    if n.negative then if n.wholeValue == 0 then none else some (-(n.wholeValue : Int))
    else some n.wholeValue
  | _, _ => none

end Numeral

end EntityQuery
