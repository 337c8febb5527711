import Facet.Members
import Facet.Scalar

/-!
# Object graphs

A graph is the data that selections are made from: scalars, objects that answer to attribute names,
and sequences. An object declares a schema, which may name attributes that it lacks and omit some
that it has. A sequence may order itself by certain keys, as a query builder would; one that cannot
is ordered by sorting its elements.
-/

set_option autoImplicit false

namespace Facet

/-- What an object offers: plain fields, and associations to other objects. -/
structure Schema where
  fields : List String
  associations : List String
deriving DecidableEq

/-- The sense of an ordering. -/
inductive Direction where
  | asc
  | desc
deriving DecidableEq

/-- An object whose attributes have values in `V`. -/
structure Object (V : Type) where
  typeName : String
  schema : Schema
  attributes : List (String × V)

def Object.attribute? {V : Type} (o : Object V) (name : String) : Option V :=
  Members.get? name o.attributes

/-- An object graph. A sequence may declare a schema, and may have an order of its own for some keys
and directions. -/
inductive Graph where
  | scalar (s : Scalar)
  | object (o : Object Graph)
  | sequence (elements : List Graph) (declared : Option Schema)
      (native : Option (List ((String × Direction) × List Graph)))

namespace Graph

/-- A sequence that cannot order itself and declares no schema. -/
def plainSequence (elements : List Graph) : Graph := .sequence elements none none

/-- The name of the kind of value: for an object, of its type. -/
def kindName : Graph → String
  | .scalar s => s.kindName
  | .object o => o.typeName
  | .sequence .. => "sequence"

def isSequence : Graph → Bool
  | .sequence .. => true
  | _ => false

def objectSchema? : Graph → Option Schema
  | .object o => some o.schema
  | _ => none

/-- The schema that the value answers with: a sequence that declares none answers with that of its
first object. -/
def schema? : Graph → Option Schema
  | .scalar _ => none
  | .object o => some o.schema
  | .sequence elements declared _ => declared <|> elements.findSome? objectSchema?

end Graph

end Facet
