import Facet.Selector.Node

/-!
# Writing selectors

The canonical text of a selection has no blanks of its own.
-/

set_option autoImplicit false

namespace Facet.Selector

/-- The text of an order, after a field. -/
def orderText : Option OrderDirective → List Char
  | none => []
  | some d => ".order(".toList ++ d.token.toList ++ [')']

mutual

def nodeText : Node → List Char
  | ⟨name, none, order⟩ => name.toList ++ orderText order
  | ⟨name, some children, order⟩ =>
    name.toList ++ '{' :: nodesText children ++ '}' :: orderText order

/-- The texts of fields, with commas between them. -/
def nodesText : List Node → List Char
  | [] => []
  | [n] => nodeText n
  | n :: m :: ns => nodeText n ++ ',' :: nodesText (m :: ns)

end

/-- The canonical selector of a selection. -/
def render (ns : List Node) : String := String.ofList (nodesText ns)

end Facet.Selector
