import Facet.Json.Sink
import Facet.Selector.Node

/-!
# Selections as JSON

A node is an object with its `name`, and with `children` and `order` if it has them. A known order is
written as its token, an unknown one as an object that holds the token under `invalid`.
-/

set_option autoImplicit false

namespace Facet.Selector

open Json (Sink)

variable {α : Type}

def OrderDirective.writeTo (sink : Sink α) : OrderDirective → α
  | .invalid raw => sink.object [("invalid", sink.string raw)]
  | d => sink.string d.token

mutual

def Node.writeTo (sink : Sink α) : Node → α
  | ⟨name, none, order⟩ =>
    sink.object (("name", sink.string name) ::
      (order.map fun d => ("order", d.writeTo sink)).toList)
  | ⟨name, some children, order⟩ =>
    sink.object (("name", sink.string name) ::
      ("children", sink.array (writeNodes sink children)) ::
      (order.map fun d => ("order", d.writeTo sink)).toList)

def writeNodes (sink : Sink α) : List Node → List α
  | [] => []
  | n :: ns => n.writeTo sink :: writeNodes sink ns

end

def nodesToJson (ns : List Node) : Json := .array (writeNodes Json.valueSink ns)

def OrderDirective.ofJson? : Json → Option OrderDirective
  | .string "chronological" => some .chronological
  | .string "reverse_chronological" => some .reverseChronological
  | .object [("invalid", .string raw)] => some (.invalid raw)
  | _ => none

/-- Reads the order among the members of a node: null is no order. -/
def orderOfMembers? (ms : Members Json) : Option (Option OrderDirective) :=
  match ms.get? "order" with
  | none | some .null => some none
  | some v => some <$> OrderDirective.ofJson? v

mutual

/-- Reads a node; members of other names are ignored. -/
def Node.ofJson? : Json → Option Node
  | .object ms =>
    match Members.get? "name" ms with
    | some (.string name) => do
      let children ← childrenOfMembers? ms
      let order ← orderOfMembers? ms
      some ⟨name, children, order⟩
    | _ => none
  | _ => none

/-- Reads the children among the members of a node: null is no selection. -/
def childrenOfMembers? : List (String × Json) → Option (Option (List Node))
  | [] => some none
  | (k, v) :: ms => if k = "children" then childrenOfJson? v else childrenOfMembers? ms

def childrenOfJson? : Json → Option (Option (List Node))
  | .null => some none
  | .array items => some <$> nodesOfItems? items
  | _ => none

def nodesOfItems? : List Json → Option (List Node)
  | [] => some []
  | v :: vs => do
    let n ← Node.ofJson? v
    let ns ← nodesOfItems? vs
    some (n :: ns)

end

def nodesOfJson? : Json → Option (List Node)
  | .array items => nodesOfItems? items
  | _ => none

end Facet.Selector
