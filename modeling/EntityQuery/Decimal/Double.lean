/-! # Doubles

A `Double` is a binary64 number other than NaN, given by its bits. Two doubles are the same number
when their keys agree: the two zeros share a key, and every other number has its own. -/

namespace EntityQuery
set_option autoImplicit false

/-- The bit of the sign. -/
def signBit : Nat := 0x8000000000000000

/-- The bits without the sign: the exponent field above 52 bits of fraction. -/
def magnitudeBits (bits : UInt64) : Nat := bits.toNat % signBit

/-- The magnitude of the infinities; larger magnitudes are NaN. -/
def infiniteMagnitude : Nat := 0x7FF0000000000000

/-- A binary64 number, infinities included and NaN excluded. -/
structure Double where
  bits : UInt64
  magnitude_le : magnitudeBits bits ≤ infiniteMagnitude
deriving DecidableEq

namespace Double

/-- The double with these bits, or `none` if they are a NaN. -/
def ofBits? (bits : UInt64) : Option Double :=
  if h : magnitudeBits bits ≤ infiniteMagnitude then some ⟨bits, h⟩ else none

/-- The double a machine float stands for, or `none` if it is a NaN. -/
def ofFloat? (x : Float) : Option Double := ofBits? x.toBits

/-- Whether the sign bit is set; so it is for `-0`. -/
def negative (x : Double) : Bool := signBit ≤ x.bits.toNat

/-- The bits without the sign. -/
def magnitude (x : Double) : Nat := magnitudeBits x.bits

/-- Whether the number is an infinity. -/
def isInfinite (x : Double) : Bool := x.magnitude == infiniteMagnitude

def isZero (x : Double) : Bool := x.magnitude == 0

/-- What identifies the number: its bits, and `0` for both zeros. -/
def key (x : Double) : Nat := if x.isZero then 0 else x.bits.toNat

def same (x y : Double) : Bool := x.key == y.key

instance : BEq Double := ⟨same⟩

end Double

end EntityQuery
