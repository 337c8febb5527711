import Facet.Decimal.Shortest

/-!
# Writing numbers

How a double is written is a matter of the format that it is written in. `Layout` holds the decisions
of such a format; `Layout.write` carries them out on the shortest digits.
-/

set_option autoImplicit false

namespace Facet.Decimal

/-- The decisions of a format for numbers. -/
structure Layout where
  /-- Numbers whose first digit has an exponent from here … -/
  plainFrom : Int
  /-- … up to here are written without an exponent, always with a fraction. -/
  plainTo : Int
  /-- Whether a positive exponent has a sign. -/
  plusSign : Bool
  /-- Which of two equally near shortest decimals is written. -/
  tie : Tie

namespace Layout

def integer (n : Int) : List Char := (toString n).toList

/-- The digits of a positive number, without exponent and with a fraction. -/
def plain (s : Scientific) : List Char :=
  if s.exponent < 0 then
    '0' :: '.' :: List.replicate (-s.exponent - 1).toNat '0' ++ s.digits
  else
    let whole := s.exponent.toNat + 1
    let fraction := s.digits.drop whole
    (s.digits.take whole ++ List.replicate (whole - s.digits.length) '0') ++
      '.' :: (if fraction.isEmpty then ['0'] else fraction)

/-- The digits of a positive number, one before the point, with an exponent. -/
def scientific (l : Layout) (s : Scientific) : List Char :=
  let mantissa := match s.digits with
    | d :: e :: ds => d :: '.' :: e :: ds
    | ds => ds
  mantissa ++ 'e' :: (if l.plusSign ∧ 0 ≤ s.exponent then ['+'] else []) ++ integer s.exponent

/-- The text of a finite number; zero keeps its sign. -/
def write (l : Layout) (x : Binary64) : List Char :=
  let sign := if x.isNegative then ['-'] else []
  if x.magnitude = 0 then sign ++ ['0', '.', '0']
  else
    let s := shortest l.tie x
    sign ++ (if l.plainFrom ≤ s.exponent ∧ s.exponent ≤ l.plainTo then plain s else l.scientific s)

end Layout

end Facet.Decimal
