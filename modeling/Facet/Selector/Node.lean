import Facet.Graph.Basic
import Facet.Text.Blank

/-!
# Selections

A selection is a list of nodes: the name of a field, the selection of what is nested under it if it
was written with braces, and an order for a nested collection. An order that names no known one is
kept as written, so that it can be reported.
-/

set_option autoImplicit false

namespace Facet.Selector

/-- The order requested of a nested collection. -/
inductive OrderDirective where
  | chronological
  | reverseChronological
  /-- Any other token, as written. -/
  | invalid (token : String)
deriving DecidableEq

namespace OrderDirective

/-- The directive as written between the parentheses. -/
def token : OrderDirective → String
  | .chronological => "chronological"
  | .reverseChronological => "reverse_chronological"
  | .invalid raw => raw

/-- The directive that a token means, blanks around it apart. -/
def ofToken (text : String) : OrderDirective :=
  let token := Text.trimmed text
  if token = "chronological" then .chronological
  else if token = "reverse_chronological" then .reverseChronological
  else .invalid token

/-- The sense in which to order; none for an unknown directive. -/
def direction? : OrderDirective → Option Direction
  | .chronological => some .asc
  | .reverseChronological => some .desc
  | .invalid _ => none

end OrderDirective

/-- A requested field. -/
structure Node where
  name : String
  /-- The selection in braces after the name, if there are braces. -/
  children : Option (List Node)
  order : Option OrderDirective

namespace Node

/-- Was the field requested without braces? -/
def isLeaf (n : Node) : Bool := n.children.isNone

mutual

def decEq : (a b : Node) → Decidable (a = b)
  | ⟨m, none, o⟩, ⟨n, none, p⟩ => decidable_of_iff (m = n ∧ o = p) (by simp)
  | ⟨m, some cs, o⟩, ⟨n, some ds, p⟩ =>
    have := decEqAll cs ds
    decidable_of_iff (m = n ∧ cs = ds ∧ o = p) (by simp)
  | ⟨_, none, _⟩, ⟨_, some _, _⟩ | ⟨_, some _, _⟩, ⟨_, none, _⟩ => isFalse nofun

def decEqAll : (as bs : List Node) → Decidable (as = bs)
  | [], [] => isTrue rfl
  | [], _ :: _ | _ :: _, [] => isFalse nofun
  | a :: as, b :: bs =>
    have := decEq a b
    have := decEqAll as bs
    decidable_of_iff (a = b ∧ as = bs) (by simp)

end

instance : DecidableEq Node := decEq

end Node

end Facet.Selector
