/-!
# Allow-lists

An allow-list permits fields by name, at each depth of nesting on its own: a bare name permits the
field and nothing under it, a scoped entry permits the field and says what is permitted under it. The
part of an allow-list that applies at one depth is a `Scope`; the allow-list itself is the scope of
the root. Where names repeat, the first entry of a name counts.
-/

set_option autoImplicit false

namespace Facet

/-- An entry of an allow-list. -/
inductive Entry where
  /-- Permits the field and nothing under it. -/
  | leaf (name : String)
  /-- Permits the field, and the children under it. -/
  | scoped (name : String) (children : List Entry)

namespace Entry

/-- The name of the field that is permitted. -/
def name : Entry → String
  | .leaf name | .scoped name _ => name

/-- Does the entry permit nothing under its field? -/
def isLeaf : Entry → Bool
  | .leaf _ => true
  | .scoped _ _ => false

mutual

def decEq : (a b : Entry) → Decidable (a = b)
  | .leaf m, .leaf n => decidable_of_iff (m = n) (by simp)
  | .scoped m cs, .scoped n ds =>
    have := decEqAll cs ds
    decidable_of_iff (m = n ∧ cs = ds) (by simp)
  | .leaf _, .scoped _ _ | .scoped _ _, .leaf _ => isFalse nofun

def decEqAll : (as bs : List Entry) → Decidable (as = bs)
  | [], [] => isTrue rfl
  | [], _ :: _ | _ :: _, [] => isFalse nofun
  | a :: as, b :: bs =>
    have := decEq a b
    have := decEqAll as bs
    decidable_of_iff (a = b ∧ as = bs) (by simp)

end

instance : DecidableEq Entry := decEq

end Entry

/-- What is permitted at one depth. -/
inductive Scope where
  /-- Everything, here and below. -/
  | unrestricted
  /-- Only what the entries permit. -/
  | restricted (entries : List Entry)
deriving DecidableEq

namespace Scope

def denyAll : Scope := .restricted []

def isUnrestricted : Scope → Bool
  | .unrestricted => true
  | .restricted _ => false

/-- The first entry that names the field. -/
def entry? (field : String) : Scope → Option Entry
  | .unrestricted => none
  | .restricted entries => entries.find? fun e => e.name = field

/-- May the field be revealed? -/
def permits (scope : Scope) (field : String) : Bool :=
  scope.isUnrestricted || (scope.entry? field).isSome

/-- The scope of what is nested under a field. -/
def under (scope : Scope) (field : String) : Scope :=
  match scope with
  | .unrestricted => .unrestricted
  | .restricted entries =>
    match entries.find? fun e => e.name = field with
    | some (.scoped _ children) => .restricted children
    | _ => denyAll

/-- The scope at the end of a path of fields. -/
def underAll (scope : Scope) (fields : List String) : Scope := fields.foldl under scope

/-- The entries; an unrestricted scope has none. -/
def entries? : Scope → Option (List Entry)
  | .unrestricted => none
  | .restricted entries => some entries

/-- The names of the leaf entries, in order. -/
def leafNames (scope : Scope) : List String :=
  ((scope.entries?.getD []).filter Entry.isLeaf).map Entry.name

/-- The names of the scoped entries, in order. -/
def scopedNames (scope : Scope) : List String :=
  ((scope.entries?.getD []).filter fun e => !e.isLeaf).map Entry.name

end Scope

end Facet
