import Facet.Graph.Basic

/-!
# JSON documents as graphs

A JSON object offers its members: those that hold objects, or arrays with an object among their
elements, are associations, all others fields. An array is a sequence without an order of its own.
-/

set_option autoImplicit false

namespace Facet

/-- Does a member with this value lead to other objects? -/
def Json.isAssociation : Json → Bool
  | .object _ => true
  | .array items => items.any Json.isObject
  | _ => false

/-- The schema of an object with these members. -/
def Schema.ofMembers (ms : Members Json) : Schema where
  fields := Members.keys (ms.filter fun m => !m.2.isAssociation)
  associations := Members.keys (ms.filter fun m => m.2.isAssociation)

namespace Graph

mutual

/-- The graph of a JSON value; the type of its objects is called `object`. -/
def ofJson : Json → Graph
  | .object ms => .object ⟨"object", Schema.ofMembers ms, ofMembers ms⟩
  | .array items => plainSequence (ofItems items)
  | v => .scalar ((Scalar.ofJson? v).getD .null)

/-- The graphs of the elements of an array. -/
def ofItems : List Json → List Graph
  | [] => []
  | v :: vs => ofJson v :: ofItems vs

/-- The graphs of the members of an object. -/
def ofMembers : List (String × Json) → List (String × Graph)
  | [] => []
  | (k, v) :: vs => (k, ofJson v) :: ofMembers vs

end

/-- Gives an object the name of a type; its parts and other values stay as they are. -/
def withTypeName (name : String) : Graph → Graph
  | .object o => .object { o with typeName := name }
  | g => g

end Graph

end Facet
