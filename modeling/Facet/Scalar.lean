import Facet.Decimal.Comparison
import Facet.Json.Basic

/-!
# Plain values

The leaves of an object graph. Numbers come in three kinds, signed, unsigned and double, and compare
by value across the kinds; other values compare only with their own kind.
-/

set_option autoImplicit false

namespace Facet

/-- A value without parts. -/
inductive Scalar where
  | null
  | bool (b : Bool)
  | int (i : Int64)
  | uint (u : UInt64)
  | float (x : Binary64)
  | string (s : String)
deriving DecidableEq

namespace Scalar

def kindName : Scalar → String
  | .null => "null"
  | .bool _ => "bool"
  | .int _ => "int"
  | .uint _ => "uint"
  | .float _ => "float"
  | .string _ => "string"

/-! ## Order -/

/-- A number, whatever it is written as: an integer of 128 bits or a double. -/
inductive Number where
  | integer (n : Int) (fits : -Binary64.int128Bound ≤ n ∧ n < Binary64.int128Bound)
  | float (x : Binary64)

/-- How two numbers compare: by value, where both have one. -/
def Number.compareTo : Number → Number → Ordering
  | .integer m _, .integer n _ => compare m n
  | .integer m _, .float y => Binary64.compareInt m y
  | .float x, .integer n _ => (Binary64.compareInt n x).swap
  | .float x, .float y => (x.compare? y).getD (x.totalCompare y)

theorem fits_int (i : Int64) :
    -Binary64.int128Bound ≤ i.toInt ∧ i.toInt < Binary64.int128Bound := by
  unfold Binary64.int128Bound
  have := i.le_toInt
  have := i.toInt_lt
  omega

theorem fits_uint (u : UInt64) :
    -Binary64.int128Bound ≤ (u.toNat : Int) ∧ (u.toNat : Int) < Binary64.int128Bound := by
  unfold Binary64.int128Bound
  have := u.toNat_lt
  omega

/-- The number of a numeric value. -/
def number? : Scalar → Option Number
  | .int i => some (.integer i.toInt (fits_int i))
  | .uint u => some (.integer u.toNat (fits_uint u))
  | .float x => some (.float x)
  | _ => none

/-- How two values compare, if they do: strings by their characters, numbers of all kinds. -/
def compare? : Scalar → Scalar → Option Ordering
  | .null, .null => some .eq
  | .bool a, .bool b => some (compare a b)
  | .string a, .string b => some (compare a b)
  | a, b => do
    let m ← a.number?
    let n ← b.number?
    some (m.compareTo n)

/-! ## JSON -/

/-- The scalar of an integer: signed if it fits. -/
def ofInt (n : Int) : Scalar :=
  if n < 0x8000000000000000 then .int (Int64.ofInt n) else .uint (UInt64.ofNat n.toNat)

/-- The scalar of a JSON value that has no parts. -/
def ofJson? : Json → Option Scalar
  | .null => some .null
  | .bool b => some (.bool b)
  | .number (.integer n _) => some (ofInt n)
  | .number (.float x _) => some (.float x)
  | .string s => some (.string s)
  | .array _ | .object _ => none

theorem inRange_int (i : Int64) : Json.inRange i.toInt = true := by
  have := i.le_toInt
  have := i.toInt_lt
  simp [Json.inRange]; omega

theorem inRange_uint (u : UInt64) : Json.inRange u.toNat = true := by
  have := u.toNat_lt
  simp [Json.inRange]; omega

/-- Writes the scalar; a double that is not finite has no JSON form and becomes null. -/
def toJson : Scalar → Json
  | .null => .null
  | .bool b => .bool b
  | .int i => .number (.integer i.toInt (inRange_int i))
  | .uint u => .number (.integer u.toNat (inRange_uint u))
  | .float x => if h : x.isFinite then .number (.float x h) else .null
  | .string s => .string s

end Scalar

end Facet
