import Facet.Json.Sink
import Facet.Members
import Facet.Scalar

/-!
# Projections

The outcome of a projection: objects with their members in order of arrival, arrays, and scalars.
-/

set_option autoImplicit false

namespace Facet

/-- A tree of plain values. -/
inductive Projection where
  | object (members : List (String × Projection))
  | array (items : List Projection)
  | scalar (s : Scalar)

namespace Projection

mutual

def decEq : (p q : Projection) → Decidable (p = q)
  | .object ps, .object qs =>
    have := decEqMembers ps qs
    decidable_of_iff (ps = qs) (by simp)
  | .array ps, .array qs =>
    have := decEqItems ps qs
    decidable_of_iff (ps = qs) (by simp)
  | .scalar s, .scalar t => decidable_of_iff (s = t) (by simp)
  | .object _, .array _ | .object _, .scalar _ | .array _, .object _ | .array _, .scalar _
  | .scalar _, .object _ | .scalar _, .array _ => isFalse nofun

def decEqItems : (ps qs : List Projection) → Decidable (ps = qs)
  | [], [] => isTrue rfl
  | [], _ :: _ | _ :: _, [] => isFalse nofun
  | p :: ps, q :: qs =>
    have := decEq p q
    have := decEqItems ps qs
    decidable_of_iff (p = q ∧ ps = qs) (by simp)

def decEqMembers : (ps qs : List (String × Projection)) → Decidable (ps = qs)
  | [], [] => isTrue rfl
  | [], _ :: _ | _ :: _, [] => isFalse nofun
  | (k, p) :: ps, (l, q) :: qs =>
    have := decEq p q
    have := decEqMembers ps qs
    decidable_of_iff (k = l ∧ p = q ∧ ps = qs) (by simp [and_assoc])

end

instance : DecidableEq Projection := decEq

def emptyObject : Projection := .object []

/-- The value under a key of an object. -/
def get? (key : String) : Projection → Option Projection
  | .object members => Members.get? key members
  | _ => none

/-- The element of an array at an index. -/
def index? (i : Nat) : Projection → Option Projection
  | .array items => items[i]?
  | _ => none

def isEmptyObject : Projection → Bool
  | .object [] => true
  | _ => false

mutual

def toJson : Projection → Json
  | .object members => .object (membersToJson members)
  | .array items => .array (itemsToJson items)
  | .scalar s => s.toJson

def itemsToJson : List Projection → List Json
  | [] => []
  | p :: ps => p.toJson :: itemsToJson ps

def membersToJson : List (String × Projection) → List (String × Json)
  | [] => []
  | (k, p) :: ps => (k, p.toJson) :: membersToJson ps

end

end Projection

end Facet
