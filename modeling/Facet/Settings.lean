import Facet.Permission.Config
import Facet.Projector

/-!
# Settings

Settings are read from a JSON document with two optional sections, the projector's and the
allow-list. Sections and fields are keyed by name, or listed in order. A section must have no key
twice; at the top level every key must be known, among the projector's fields other keys are ignored
whatever their values. The command line overrides single settings.
-/

set_option autoImplicit false

namespace Facet

open Json (Written Glyph)

namespace Wrapping

def name : Wrapping → String
  | .bare => "bare"
  | .data => "data"

def ofName? : String → Option Wrapping
  | "bare" => some .bare
  | "data" => some .data
  | _ => none

/-- Reads a wrapping: its name, or an object that holds null under its name. -/
def ofWritten? : Written → Option Wrapping
  | .string name => Glyph.text? name >>= ofName?
  | .object [(name, .null)] => Glyph.text? name >>= ofName?
  | _ => none

end Wrapping

namespace Settings

def string? : Written → Option String
  | .string s => Glyph.text? s
  | _ => none

def bool? : Written → Option Bool
  | .bool b => some b
  | _ => none

/-- The members of an object with their keys read. -/
def keyed? (members : List (List Glyph × Written)) : Option (List (String × Written)) :=
  members.mapM fun m => (Glyph.text? m.1).map (·, m.2)

/-- The member of the key, if there is one; there must not be two. -/
def unique? (key : String) (members : List (String × Written)) : Option (Option Written) :=
  match members.filter fun m => m.1 = key with
  | [] => some none
  | [m] => some (some m.2)
  | _ => none

/-- Reads a field, if it is there. -/
def fieldOr {α : Type} (default : α) (reader : Written → Option α) : Option Written → Option α
  | none => some default
  | some w => reader w

end Settings

namespace ProjectorConfig

/-- Reads the fields that are there; the others have their defaults. -/
def ofFields? (wrapping orderKey diagnoseDenied : Option Written) : Option ProjectorConfig := do
  let wrapping ← Settings.fieldOr default.wrapping Wrapping.ofWritten? wrapping
  let orderKey ← Settings.fieldOr default.orderKey Settings.string? orderKey
  let diagnoseDenied ← Settings.fieldOr default.diagnoseDenied Settings.bool? diagnoseDenied
  some ⟨wrapping, orderKey, diagnoseDenied⟩

def ofWritten? : Written → Option ProjectorConfig
  | .object members => do
    let members ← Settings.keyed? members
    let wrapping ← Settings.unique? "wrapping" members
    let orderKey ← Settings.unique? "order_key" members
    let diagnoseDenied ← Settings.unique? "diagnose_denied_fields" members
    ofFields? wrapping orderKey diagnoseDenied
  | .array items => if 3 < items.length then none else ofFields? items[0]? items[1]? items[2]?
  | _ => none

def toJson (config : ProjectorConfig) : Json :=
  .object [("wrapping", .string config.wrapping.name), ("order_key", .string config.orderKey),
    ("diagnose_denied_fields", .bool config.diagnoseDenied)]

end ProjectorConfig

/-- The settings of a configuration file. -/
structure Settings where
  projector : ProjectorConfig
  permissions : Scope

namespace Settings

/-- The settings where none are given: every field may be selected. -/
def default : Settings := ⟨.default, .unrestricted⟩

/-- Reads the allow-list of a file, which stands in a container. -/
def permissions? (w : Written) : Option Scope := do
  let v ← w.value? (Json.maxDepth - 1)
  (Scope.ofSection v).toOption

/-- Reads the sections that are there. -/
def ofSections? (projector permissions : Option Written) : Option Settings := do
  let projector ← fieldOr default.projector ProjectorConfig.ofWritten? projector
  let permissions ← fieldOr default.permissions permissions? permissions
  some ⟨projector, permissions⟩

def ofWritten? : Written → Option Settings
  | .object members => do
    let members ← keyed? members
    let projector ← unique? "projector" members
    let permissions ← unique? "permissions" members
    if members.all fun m => m.1 = "projector" || m.1 = "permissions" then
      ofSections? projector permissions
    else none
  | .array items => if 2 < items.length then none else ofSections? items[0]? items[1]?
  | _ => none

def ofText? (text : String) : Option Settings := Written.ofText? text >>= ofWritten?

end Settings

/-- Settings given on the command line. -/
structure Overrides where
  wrapping : Option Wrapping
  orderKey : Option String
  quietDenied : Bool

namespace Overrides

/-- The settings with what is given in place of what was. -/
def apply (o : Overrides) (config : ProjectorConfig) : ProjectorConfig where
  wrapping := o.wrapping.getD config.wrapping
  orderKey := o.orderKey.getD config.orderKey
  diagnoseDenied := config.diagnoseDenied && !o.quietDenied

end Overrides

end Facet
