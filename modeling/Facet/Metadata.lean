import Facet.Graph.Basic
import Facet.Json.Sink
import Facet.Permission.Scope

/-!
# Metadata

What a client may select on a target: what the allow-list names, if there is one, otherwise what the
target's schema declares. A category without names is left out.
-/

set_option autoImplicit false

namespace Facet

/-- The names that may be selected, by category. -/
structure Metadata where
  fields : Option (List String)
  associations : Option (List String)
deriving DecidableEq

namespace Metadata

/-- Names, unless there are none. -/
def category (names : List String) : Option (List String) := if names.isEmpty then none else some names

def ofNames (fields associations : List String) : Metadata := ⟨category fields, category associations⟩

def isEmpty (m : Metadata) : Bool := m.fields.isNone && m.associations.isNone

/-- What may be selected on a target within a scope. -/
def describe (target : Graph) : Scope → Metadata
  | .unrestricted =>
    match target.schema? with
    | some schema => ofNames schema.fields schema.associations
    | none => ⟨none, none⟩
  | scope => ofNames scope.leafNames scope.scopedNames

/-- The categories that have names. -/
def categories (m : Metadata) : List (String × List String) :=
  (m.fields.map ("fields", ·)).toList ++ (m.associations.map ("associations", ·)).toList

def toJson (m : Metadata) : Json := .object (m.categories.map fun c => (c.1, .strings c.2))

def writeTo {α : Type} (sink : Json.Sink α) (m : Metadata) : α :=
  sink.object (m.categories.map fun c => (c.1, sink.strings c.2))

end Metadata

end Facet
