/-!
# Double-precision numbers by their bits

A `Binary64` is a pattern of 64 bits: a sign, eleven bits of exponent and 52 of fraction. A finite
one stands for a whole number of units of 2^-1074, the distance between the smallest two, so that
values can be compared as integers. `rank` extends the count of units to all patterns: the all-ones
exponent is read like any other, which puts infinity above every finite number and the patterns that
are no numbers beyond infinity, on the side of their sign.
-/

set_option autoImplicit false

namespace Facet

/-- A double-precision number, as its bit pattern. -/
structure Binary64 where
  bits : UInt64
deriving DecidableEq, Repr

namespace Binary64

/-- The pattern as a natural number. -/
def word (x : Binary64) : Nat := x.bits.toNat

/-- Is the sign bit set? -/
def isNegative (x : Binary64) : Bool := 0x8000000000000000 ≤ x.word

/-- The eleven bits of exponent. -/
def exponentField (x : Binary64) : Nat := x.word / 0x10000000000000 % 0x800

/-- The 52 bits of fraction. -/
def fractionField (x : Binary64) : Nat := x.word % 0x10000000000000

/-- Neither an infinity nor a pattern that is no number. -/
def isFinite (x : Binary64) : Bool := x.exponentField < 0x7FF

/-- A pattern that stands for no number. -/
def isNaN (x : Binary64) : Bool := x.exponentField = 0x7FF ∧ 0 < x.fractionField

/-- The digits of the number in base two, as an integer: the fraction, after a one unless the
exponent is zero. -/
def significand (x : Binary64) : Nat :=
  if x.exponentField = 0 then x.fractionField else 0x10000000000000 + x.fractionField

/-- One unit of the significand is `2 ^ scale` units of 2^-1074. -/
def scale (x : Binary64) : Nat := x.exponentField - 1

/-- The magnitude in units of 2^-1074. -/
def magnitude (x : Binary64) : Nat := x.significand <<< x.scale

/-- The place of the pattern among all patterns and all multiples of 2^-1074. -/
def rank (x : Binary64) : Int := if x.isNegative then -(x.magnitude : Int) else x.magnitude

/-- The rank of an integer: its value in units of 2^-1074. -/
def rankOfInt (n : Int) : Int := n * (1 <<< 1074 : Nat)

end Binary64

end Facet
