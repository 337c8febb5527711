import Facet.Json.Basic
import Facet.Text.Blank

/-!
# Diagnostics

Problems that do not stop a projection are recorded in the order in which they are met. A client
sees those that it asks for, by severity.
-/

set_option autoImplicit false

namespace Facet

/-- How much a diagnostic matters. -/
inductive Severity where
  | info
  | warning
deriving DecidableEq

namespace Severity

def name : Severity → String
  | .info => "info"
  | .warning => "warning"

end Severity

/-- What a diagnostic is about. -/
inductive DiagnosticKind where
  | fieldNotPermitted
  | invalidOrderField
  | unorderableCollection
  | invalidOrderDirection
  | metadataForNonObjectBody
  | metadataForNonJsonBody
deriving DecidableEq

namespace DiagnosticKind

/-- A field that the allow-list hides is worth a note, all else a warning. -/
def severity : DiagnosticKind → Severity
  | .fieldNotPermitted => .info
  | _ => .warning

def name : DiagnosticKind → String
  | .fieldNotPermitted => "field_not_permitted"
  | .invalidOrderField => "invalid_order_field"
  | .unorderableCollection => "unorderable_collection"
  | .invalidOrderDirection => "invalid_order_direction"
  | .metadataForNonObjectBody => "metadata_for_non_object_body"
  | .metadataForNonJsonBody => "metadata_for_non_json_body"

end DiagnosticKind

/-- A problem that was met. -/
structure Diagnostic where
  kind : DiagnosticKind
  message : String
deriving DecidableEq

namespace Diagnostic

def severity (d : Diagnostic) : Severity := d.kind.severity

def toJson (d : Diagnostic) : Json :=
  .object [("type", .string d.severity.name), ("kind", .string d.kind.name),
    ("message", .string d.message)]

end Diagnostic

/-- The diagnostics recorded so far, oldest first. -/
abbrev Diagnostics := List Diagnostic

/-- Which diagnostics a client asks for. -/
inductive DebugLevel where
  | none
  | info
  | warning
  | all
deriving DecidableEq

namespace DebugLevel

def name : DebugLevel → String
  | .none => "none"
  | .info => "info"
  | .warning => "warning"
  | .all => "all"

/-- Does a client at this level see diagnostics of the severity? -/
def admits : DebugLevel → Severity → Bool
  | .none, _ => false
  | .info, s => s = .info
  | .warning, s => s = .warning
  | .all, _ => true

/-- The level with the name, in capitals or not and between blanks or not. No name is no level. -/
def ofName? (text : String) : Option DebugLevel :=
  match Text.lowered (Text.trimmed text) with
  | "" | "none" => some .none
  | "info" => some .info
  | "warning" => some .warning
  | "all" => some .all
  | _ => Option.none

/-- The level that a request parameter asks for; an absent or unknown one asks for none. -/
def ofParam (param : Option String) : DebugLevel := (param.bind ofName?).getD .none

end DebugLevel

namespace Diagnostics

/-- Records a diagnostic after those recorded before it. -/
def record (kind : DiagnosticKind) (message : String) : StateM Diagnostics Unit :=
  modify (· ++ [⟨kind, message⟩])

/-- The diagnostics of the severities that the level admits. -/
def filtered (level : DebugLevel) (ds : Diagnostics) : Diagnostics :=
  ds.filter fun d => level.admits d.severity

def hasKind (kind : DiagnosticKind) (ds : Diagnostics) : Bool := ds.any fun d => d.kind = kind

end Diagnostics

end Facet
