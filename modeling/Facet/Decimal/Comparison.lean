import Facet.Decimal.Binary64

/-!
# Comparing doubles

Two doubles compare by value if both stand for a number (`compare?`), and otherwise by their
patterns (`totalCompare`). An integer is compared with the whole part of a double; if the two are
equal, the digits after the point decide (`compareInt`).
-/

set_option autoImplicit false

namespace Facet.Binary64

/-! ## Doubles -/

/-- How two doubles compare by value. A pattern that is no number compares with none. -/
def compare? (x y : Binary64) : Option Ordering :=
  if x.isNaN || y.isNaN then none else some (compare x.rank y.rank)

def isLess (x y : Binary64) : Bool := x.compare? y = some .lt

def isAtMost (x y : Binary64) : Bool := x.compare? y = some .lt ∨ x.compare? y = some .eq

/-- The place of the pattern among all patterns, by its sign and then by the integer that the other
bits form. -/
def totalKey (x : Binary64) : Int :=
  if x.isNegative then 0x7FFFFFFFFFFFFFFF - (x.word : Int) else x.word

/-- How two patterns compare in the order of all patterns. -/
def totalCompare (x y : Binary64) : Ordering := compare x.totalKey y.totalKey

/-! ## Whole parts -/

/-- How many of the low bits stand for digits after the point: of a double less than one, all bits
but the sign. -/
def bitsAfterPoint (x : Binary64) : Nat :=
  if x.exponentField < 0x3FF then 63 else 0x433 - x.exponentField

/-- The double without its digits after the point. -/
def trunc (x : Binary64) : Binary64 :=
  let n := UInt64.ofNat x.bitsAfterPoint
  ⟨x.bits >>> n <<< n⟩

/-- The integers of 128 bits are those from the negative of this one up to the one before it. -/
def int128Bound : Int := 0x80000000000000000000000000000000

/-- The integer of 128 bits that is nearest to the double among those towards zero; zero if the
pattern is no number. -/
def toInt128 (x : Binary64) : Int :=
  if x.isNaN then 0 else max (-int128Bound) (min (int128Bound - 1) (x.rank.tdiv (rankOfInt 1)))

/-! ## Integers and doubles -/

/-- The double of the bound on integers of 128 bits. -/
def int128Limit : Binary64 := ⟨0x47E0000000000000⟩

/-- The least integer of 128 bits. -/
def int128Least : Binary64 := ⟨0xC7E0000000000000⟩

/-- How an integer of 128 bits compares with a double. A pattern that is no number is beyond all
integers, on the side of its sign. -/
def compareInt (n : Int) (x : Binary64) : Ordering :=
  if x.isNaN then
    if x.isNegative then .gt else .lt
  else if int128Limit.isAtMost x then .lt
  else if x.isLess int128Least then .gt
  else
    let whole := x.trunc
    (compare n whole.toInt128).then
      (if whole.isLess x then .lt else if x.isLess whole then .gt else .eq)

end Facet.Binary64
