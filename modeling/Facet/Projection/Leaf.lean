import Facet.Graph.Basic
import Facet.Projection.Basic

/-!
# Values without a selection

A field requested without braces shows its value as far as it is plain: a scalar, the declared fields
of an object but not its associations, and the elements of a sequence in the same way.
-/

set_option autoImplicit false

namespace Facet.Projection

/-- The declared fields among the members of an object; a field that it lacks is left out. -/
def declaredMembers (fields : List String) (ms : Members Projection) : Members Projection :=
  Members.ofPairs (fields.filterMap fun f => (ms.get? f).map (f, ·))

mutual

/-- What a value shows without a selection. -/
def leaf : Graph → Projection
  | .scalar s => .scalar s
  | .object o => .object (declaredMembers o.schema.fields (leafMembers o.attributes))
  | .sequence elements _ _ => .array (leafItems elements)

def leafItems : List Graph → List Projection
  | [] => []
  | g :: gs => leaf g :: leafItems gs

def leafMembers : List (String × Graph) → List (String × Projection)
  | [] => []
  | (k, g) :: gs => (k, leaf g) :: leafMembers gs

end

end Facet.Projection
