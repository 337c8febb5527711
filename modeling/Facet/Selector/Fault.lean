import Facet.Text.Quoted

/-!
# Faults of selectors

What can be wrong with the text of a selector, and where. Positions count bytes from its start.
-/

set_option autoImplicit false

namespace Facet.Selector

/-- What is wrong with a selector. -/
inductive FaultKind where
  /-- A closing brace that nothing opened. -/
  | unexpectedClose
  /-- An opening brace that nothing closes. -/
  | unclosedOpen
  /-- Nothing but blanks where a field should be. -/
  | emptyField
  /-- A field without a name. -/
  | missingName
  /-- A character that no name can have. -/
  | invalidCharacter (c : Char) (name : List Char)
  /-- Text after a field that is no order. -/
  | unexpectedSuffix (suffix : List Char)
  /-- Text after the order of a field. -/
  | textAfterOrder (suffix : List Char)
deriving DecidableEq

/-- A fault and its position. -/
structure Fault where
  position : Nat
  kind : FaultKind
deriving DecidableEq

namespace FaultKind

/-- Is the fault one of braces that do not match? -/
def isBraceFault : FaultKind → Bool
  | .unexpectedClose | .unclosedOpen => true
  | _ => false

def reason : FaultKind → String
  | .unexpectedClose => "unexpected '\x7d'"
  | .unclosedOpen => "unclosed '\x7b'"
  | .emptyField => "empty field"
  | .missingName => "missing field name"
  | .invalidCharacter c name =>
    "invalid character " ++ String.ofList (Text.quotedChar c) ++ " in field name " ++
      String.ofList (Text.quoted name)
  | .unexpectedSuffix suffix => "unexpected " ++ String.ofList (Text.quoted suffix) ++ " after field"
  | .textAfterOrder suffix => "unexpected text after " ++ String.ofList (Text.quoted suffix)

end FaultKind

end Facet.Selector
