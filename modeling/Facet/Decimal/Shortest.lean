import Facet.Decimal.Binary64

/-!
# The shortest decimal of a double

A decimal *reads back* to a finite number if it is nearer to that number than to any other, where a
decimal halfway between two neighbours belongs to the one with the even significand. `shortest`
selects, among the decimals of fewest digits that read back, the one nearest to the number.
-/

set_option autoImplicit false

namespace Facet.Decimal

/-- The digits d₀d₁d₂… of a positive decimal d₀.d₁d₂… × 10^exponent. -/
structure Scientific where
  digits : List Char
  exponent : Int
deriving DecidableEq, Repr

/-- Which of two equally near decimals of one length is selected. -/
inductive Tie where
  | toEven
  | up
deriving DecidableEq, Repr

def digitCount (n : Nat) : Nat := (Nat.toDigits 10 n).length

/-- The exponent of ten of the first digit of the positive number `num / den`. -/
def leadingExponent (num den : Nat) : Int :=
  if den ≤ num then digitCount (num / den) - 1
  else -(digitCount ((den + num - 1) / num - 1) : Int)

/-- `10 ^ k`, for what is an integer of it: 1 if `k` is negative. -/
def tens (k : Int) : Nat := Nat.pow 10 k.toNat

/-- Compares `n * 10 ^ k` with `num / den`. -/
def compareScaled (n : Nat) (k : Int) (num den : Nat) : Ordering :=
  compare (n * tens k * den) (num * tens (-k))

/-- The gap below a power of two is half as wide as the gap above it, unless both are subnormal. -/
def hasNarrowGapBelow (x : Binary64) : Bool := x.fractionField = 0 ∧ 1 < x.exponentField

/-- Does the decimal `n * 10 ^ k` read back to the positive finite number `x`? The ends of the
interval of its decimals are counted in quarters of a unit, and belong to it if the significand is
even. -/
def readsBack (x : Binary64) (n : Nat) (k : Int) : Bool :=
  let quarter := 1 <<< x.scale
  let middle := 4 * x.magnitude
  let low := compareScaled n k (middle - (if hasNarrowGapBelow x then 1 else 2) * quarter) (1 <<< 1076)
  let high := compareScaled n k (middle + 2 * quarter) (1 <<< 1076)
  let ends := x.significand % 2 = 0
  (low = .gt ∨ (ends ∧ low = .eq)) ∧ (high = .lt ∨ (ends ∧ high = .eq))

/-- The nearer of two neighbours `n` and `n + 1` on the grid of `10 ^ k` to the number
`num / den` between them. -/
def nearer (tie : Tie) (n : Nat) (k : Int) (num den : Nat) : Nat :=
  match compareScaled (2 * n + 1) k (2 * num) den with
  | .gt => n
  | .lt => n + 1
  | .eq => if tie = .toEven ∧ n % 2 = 0 then n else n + 1

/-- The multiple of `10 ^ k` that reads back to `x`, the nearer of two, if there is one. -/
def onGrid (tie : Tie) (x : Binary64) (k : Int) : Option Nat :=
  let num := x.magnitude
  let den := 1 <<< 1074
  let below := num * tens (-k) / (den * tens k)
  match readsBack x below k, readsBack x (below + 1) k with
  | true, true => some (nearer tie below k num den)
  | true, false => some below
  | false, true => some (below + 1)
  | false, false => none

/-- `n * 10 ^ k` in scientific form, without trailing zeros. -/
def Scientific.ofScaled (n : Nat) (k : Int) : Scientific where
  digits := ((Nat.toDigits 10 n).reverse.dropWhile (· = '0')).reverse
  exponent := k + (digitCount n - 1 : Nat)

/-- The decimal of fewest digits that reads back to the positive finite number `x`. Seventeen digits
always suffice. -/
def shortest (tie : Tie) (x : Binary64) : Scientific :=
  let lead := leadingExponent x.magnitude (1 <<< 1074)
  match (List.range 17).findSome? fun (i : Nat) => (onGrid tie x (lead - i)).map (·, lead - i) with
  | some (n, k) => .ofScaled n k
  | none => .ofScaled (x.magnitude * Nat.pow 5 1074) (-1074)

end Facet.Decimal
