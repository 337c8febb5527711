import Facet.Selector.Fault

/-!
# Errors

What can make a request fail as a whole. Only a fault in the selector is the client's doing.
-/

set_option autoImplicit false

namespace Facet

/-- The reason that a request fails. -/
inductive Error where
  | selector (fault : Selector.Fault)
  | attributeNotFound (typeName name : String)
  | invalidConfig (reason : String)
  /-- A text that should be JSON is not. -/
  | invalidEncoding
deriving DecidableEq

namespace Error

def message : Error → String
  | .selector fault =>
    "Selector syntax error at " ++ toString fault.position ++ ": " ++ fault.kind.reason
  | .attributeNotFound typeName name =>
    "Attribute " ++ name ++ " not found on " ++ typeName
  | .invalidConfig reason => "Invalid configuration: " ++ reason
  | .invalidEncoding => "Invalid encoding"

/-- Is the client to blame? -/
def isClientError : Error → Bool
  | .selector _ => true
  | _ => false

end Error

end Facet
