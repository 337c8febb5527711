import Facet.Arrangement
import Facet.Error
import Facet.Path
import Facet.Permission.Scope
import Facet.Projection.Leaf
import Facet.Selector.Parser

/-!
# The projector

A projection walks an object graph, a selection and a scope together. Each selected field is checked
against the scope before it is read: a field that is not permitted is left out and noted, a permitted
one that the object lacks ends the projection with an error. A field with braces is projected through
the selection in them, within the scope under the field; a collection is ordered before that, if an
order is requested.
-/

set_option autoImplicit false

namespace Facet

/-- How a collection at the root is returned. -/
inductive Wrapping where
  /-- As an array. -/
  | bare
  /-- As an object with the array under `data`. -/
  | data
deriving DecidableEq

/-- The settings of a projector. -/
structure ProjectorConfig where
  wrapping : Wrapping
  /-- The key that collections are ordered by. -/
  orderKey : String
  /-- Whether a field that is not permitted is noted. -/
  diagnoseDenied : Bool
deriving DecidableEq

/-- The settings where none are given. -/
def ProjectorConfig.default : ProjectorConfig := ⟨.data, "created_at", true⟩

/-- A computation that may fail, and records diagnostics whether it fails or not. -/
abbrev Run (α : Type) := ExceptT Error (StateM Diagnostics) α

namespace Projector

open Selector (Node OrderDirective)

/-- Records a diagnostic. -/
def note (kind : DiagnosticKind) (message : String) : Run Unit :=
  ExceptT.lift (Diagnostics.record kind message)

/-! ## Walking a graph -/

mutual

/-- Projects a value at a path by a rule for objects: a sequence element by element, and a scalar,
which has nothing to select from, to the empty object. -/
def walk (rule : Path → Object Graph → Run Projection) (path : Path) : Graph → Run Projection
  | .scalar _ => pure .emptyObject
  | .object o => rule path o
  | .sequence elements _ _ => Projection.array <$> walkAll rule path 0 elements

/-- Projects elements, the first of which has the index. -/
def walkAll (rule : Path → Object Graph → Run Projection) (path : Path) (i : Nat) :
    List Graph → Run (List Projection)
  | [] => pure []
  | g :: gs => do
    let p ← walk rule (path.index i) g
    let ps ← walkAll rule path (i + 1) gs
    pure (p :: ps)

end

/-! ## Ordering -/

/-- The text of a path from the target. -/
def placeText (path : Path) : String := path.render ""

/-- The value at a path in the requested order. A value that cannot be ordered stays as it is, and
the reason is noted. -/
def inOrder (config : ProjectorConfig) (path : Path) (order : Option OrderDirective) (value : Graph) :
    Run Graph :=
  match order with
  | none => pure value
  | some directive =>
    match directive.direction?, value with
    | none, _ => do
      note .invalidOrderDirection
        ("Unknown order " ++ String.ofList (Text.quoted directive.token.toList) ++ " on " ++
          placeText path)
      pure value
    | some direction, .sequence elements _ native =>
      Graph.plainSequence <$>
        ExceptT.lift (Arrangement.arrange (placeText path) config.orderKey direction elements native)
    | some _, _ => do
      note .unorderableCollection
        ("Cannot order " ++ placeText path ++ ": " ++ value.kindName ++ " is not a collection")
      pure value

/-! ## Projecting -/

mutual

/-- Projects the selected fields of the object at a path, after those already projected. -/
def projectFields (config : ProjectorConfig) (scope : Scope) (path : Path) (o : Object Graph)
    (done : Members Projection) : List Node → Run (Members Projection)
  | [] => pure done
  | n :: ns => do
    match ← projectField config scope path o n with
    | none => projectFields config scope path o done ns
    | some value => projectFields config scope path o (Members.insert n.name value done) ns

/-- Projects a selected field of the object at a path; a field that is not permitted has no value. -/
def projectField (config : ProjectorConfig) (scope : Scope) (path : Path) (o : Object Graph) :
    Node → Run (Option Projection)
  | ⟨name, children, order⟩ =>
    if scope.permits name then
      match o.attribute? name with
      | none => throw (.attributeNotFound o.typeName name)
      | some value =>
        match children with
        | none => pure (some (.leaf value))
        | some nodes => do
          let value ← inOrder config (path.key name) order value
          some <$> walk
            (fun path o => Projection.object <$>
              projectFields config (scope.under name) path o [] nodes)
            (path.key name) value
    else do
      if config.diagnoseDenied then
        note .fieldNotPermitted ("Field " ++ placeText (path.key name) ++ " is not permitted")
      pure none

end

/-- Projects an object through a selection, within a scope. -/
def projectObject (config : ProjectorConfig) (nodes : List Node) (scope : Scope) (path : Path)
    (o : Object Graph) : Run Projection :=
  Projection.object <$> projectFields config scope path o [] nodes

/-- The projection of a target, with a sequence wrapped as configured. -/
def wrap (config : ProjectorConfig) (target : Graph) (p : Projection) : Projection :=
  if target.isSequence ∧ config.wrapping = .data then .object [("data", p)] else p

/-- Projects a target through a selection, within a scope. -/
def project (config : ProjectorConfig) (target : Graph) (nodes : List Node) (scope : Scope) :
    Run Projection :=
  wrap config target <$> walk (projectObject config nodes scope) [] target

/-- Reads a selector and projects a target through it. -/
def projectSelector (config : ProjectorConfig) (target : Graph) (selector : String) (scope : Scope) :
    Run Projection :=
  match Selector.parse selector with
  | .error fault => throw (.selector fault)
  | .ok nodes => project config target nodes scope

end Projector

end Facet
