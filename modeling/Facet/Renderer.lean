import Facet.Body
import Facet.Graph.OfJson
import Facet.Metadata
import Facet.Projector

/-!
# Answering requests

A request may ask for fields, for metadata and for diagnostics. The fields, if there are any, are
projected, and replace the body that would be sent without them; metadata and diagnostics are
attached to the body under keys of their own, where it is an object. A body of bytes is read for that
with the decoder that is given.
-/

set_option autoImplicit false

namespace Facet

/-- What a client asks for. -/
structure Request where
  fields : Option String
  metadata : Bool
  debug : DebugLevel
deriving DecidableEq

namespace Request

def empty : Request := ⟨none, false, .none⟩

/-- Does the value of a parameter mean yes? -/
def isTruthy (value : String) : Bool :=
  ["true", "1", "yes", "on"].contains (Text.lowered (Text.trimmed value))

/-- Takes one parameter of a query into account. -/
def withParam (request : Request) (key value : String) : Request :=
  match key with
  | "fields" => { request with fields := some value }
  | "metadata" => { request with metadata := isTruthy value }
  | "debug" => { request with debug := .ofParam (some value) }
  | _ => request

/-- The request of a query: of repeated parameters the last counts. -/
def ofQuery (params : List (String × String)) : Request :=
  params.foldl (fun request p => request.withParam p.1 p.2) empty

/-- The selector to project through, blanks around it apart; a blank one selects nothing. -/
def selector? (request : Request) : Option String :=
  (request.fields.map Text.trimmed).filter (· ≠ "")

end Request

/-- What answers requests: a projector's settings and an allow-list. -/
structure Renderer where
  config : ProjectorConfig
  permissions : Scope

/-- The answer to a request, and what was noted on the way. -/
structure Rendered where
  body : Option Body
  diagnostics : Diagnostics

namespace Renderer

/-- The body before anything is attached to it, and what was noted for it. -/
def projected (r : Renderer) (target : Graph) (request : Request) (default : Option Body) :
    Except Error Rendered :=
  match request.selector? with
  | none => .ok ⟨default, []⟩
  | some selector =>
    match (Projector.projectSelector r.config target selector r.permissions).run [] with
    | (.ok p, ds) => .ok ⟨some (.json p.toJson), ds⟩
    | (.error e, _) => .error e

/-- The warning that metadata cannot be attached. -/
def metadataWarning : Body.AttachFault → Diagnostic
  | .notObject => ⟨.metadataForNonObjectBody,
      "Metadata was requested but the response body is not a JSON object"⟩
  | .notJson => ⟨.metadataForNonJsonBody,
      "Metadata was requested but the response body is not JSON"⟩

/-- Attaches metadata, or warns that it cannot be done. -/
def withMetadata (r : Renderer) (decode : Json.Decoder) (target : Graph) (answer : Rendered) :
    Rendered :=
  let metadata := (Metadata.describe target r.permissions).toJson
  let (body, fault) := Body.attach decode "metadata" metadata answer.body
  ⟨some body, answer.diagnostics ++ (fault.map metadataWarning).toList⟩

/-- Attaches the diagnostics that the level admits. -/
def withDebug (decode : Json.Decoder) (level : DebugLevel) (answer : Rendered) : Rendered :=
  let shown := (Diagnostics.filtered level answer.diagnostics).map Diagnostic.toJson
  { answer with body := some (Body.attach decode "debug" (.array shown) answer.body).1 }

/-- Answers a request, given the body to send if it selects nothing. -/
def render (r : Renderer) (decode : Json.Decoder) (target : Graph) (request : Request)
    (default : Option Body) : Except Error Rendered := do
  let answer ← r.projected target request default
  let answer := if request.metadata then r.withMetadata decode target answer else answer
  .ok (if request.debug = .none then answer else withDebug decode request.debug answer)

end Renderer

end Facet
