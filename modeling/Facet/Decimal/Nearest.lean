import Facet.Decimal.Shortest

/-!
# The double nearest to a decimal

`nearest` rounds `± n * 10 ^ k` to the nearest finite double, a half going to the even significand.
The bits of a positive double count the doubles below it, so that rounding up to the next power of
two needs no case of its own.
-/

set_option autoImplicit false

namespace Facet.Decimal

/-- `num / den` rounded to the nearest integer, a half to the even one. -/
def roundHalfEven (num den : Nat) : Nat :=
  let q := num / den
  match compare (2 * (num % den)) den with
  | .lt => q
  | .gt => q + 1
  | .eq => if q % 2 = 0 then q else q + 1

/-- The bits of the double nearest to `num / den`, if exponents had no upper limit. -/
def nearestWord (num den : Nat) : Nat :=
  let scale := Nat.log2 ((num <<< 1074) / den) - 52
  (scale <<< 52) + roundHalfEven (num <<< 1074) (den <<< scale)

/-- The double nearest to `n * 10 ^ k`, negated if asked; `none` if it would be infinite. A decimal
whose first digit stands far outside the range of doubles is not computed. -/
def nearest (negative : Bool) (n : Nat) (k : Int) : Option Binary64 :=
  let lead := (digitCount n : Int) + k
  let word :=
    if n = 0 ∨ lead < -400 then 0
    else if 400 < lead then 0x7FF0000000000000
    else nearestWord (n * tens k) (tens (-k))
  if word < 0x7FF0000000000000 then
    some ⟨UInt64.ofNat ((if negative then 0x8000000000000000 else 0) + word)⟩
  else none

end Facet.Decimal
