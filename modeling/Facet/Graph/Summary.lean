import Facet.Decimal.Layout
import Facet.Graph.Basic
import Facet.Text.Quoted

/-!
# Summaries

A one-line text that tells what a value is, without its parts.
-/

set_option autoImplicit false

namespace Facet

/-- In summaries doubles are written without an exponent from 10^-4 up to 10^16, a positive exponent
has no sign, and of two equally near shortest decimals the upper one is written. -/
def summaryLayout : Decimal.Layout where
  plainFrom := -4
  plainTo := 15
  plusSign := false
  tie := .up

/-- The text of any double in a summary. -/
def summaryFloat (x : Binary64) : String :=
  if x.isNaN then "NaN"
  else if !x.isFinite then (if x.isNegative then "-inf" else "inf")
  else String.ofList (summaryLayout.write x)

/-- The summary of a scalar names its kind and value. -/
def Scalar.summary : Scalar → String
  | .null => "Null"
  | .bool b => "Bool(" ++ toString b ++ ")"
  | .int i => "Int(" ++ toString i.toInt ++ ")"
  | .uint u => "UInt(" ++ toString u.toNat ++ ")"
  | .float x => "Float(" ++ summaryFloat x ++ ")"
  | .string s => "String(" ++ String.ofList (Text.quoted s.toList) ++ ")"

/-- The summary of a value: an object is known by its type. -/
def Graph.summary : Graph → String
  | .scalar s => "Scalar(" ++ s.summary ++ ")"
  | .object o => "Object(" ++ String.ofList (Text.quoted o.typeName.toList) ++ ")"
  | .sequence .. => "Sequence"

end Facet
