import Facet.Error
import Facet.Json.Reader
import Facet.Json.Sink
import Facet.Path
import Facet.Permission.Scope
import Facet.Text.Blank

/-!
# Allow-lists in configuration

An allow-list is configured by a JSON value. A level of it is a name, a list of names and mappings,
or a mapping; a mapping permits its keys, and under each key what the level in its value permits.
Null is no allow-list at all. Names are trimmed and must not be blank. The first fault in the order
of the document is reported, a key before its value.
-/

set_option autoImplicit false

namespace Facet

/-- What is wrong with the configuration of an allow-list, and where. -/
inductive ConfigFault where
  /-- A value that is no name, list or mapping. -/
  | invalidEntry (path : Path) (found : String)
  /-- A name that is blank. -/
  | emptyName (path : Path)
  /-- A list directly inside a list. -/
  | nestedList (path : Path)
deriving DecidableEq

namespace ConfigFault

/-- The place in the configuration, from its root. -/
def place (path : Path) : String := path.render "$"

def message : ConfigFault → String
  | .invalidEntry path found =>
    "Invalid permission entry at " ++ place path ++
      ": expected a name, list or mapping, found " ++ found
  | .emptyName path => "Empty field name at " ++ place path
  | .nestedList path =>
    "Nested list at " ++ place path ++ ": nested fields must be keyed by their association"

def toError (fault : ConfigFault) : Error := .invalidConfig fault.message

end ConfigFault

/-- The kind of a JSON value in a configuration. -/
def Json.configKind : Json → String
  | .null => "null"
  | .bool _ => "boolean"
  | .number _ => "number"
  | .string _ => "string"
  | .array _ => "list"
  | .object _ => "mapping"

namespace Entry

/-- The name of a permitted field, as configured at the path. -/
def nameOfText (path : Path) (text : String) : Except ConfigFault String :=
  let name := Text.trimmed text
  if name = "" then .error (.emptyName path) else .ok name

mutual

/-- The entries that a level permits. -/
def ofLevel (path : Path) : Json → Except ConfigFault (List Entry)
  | .string text => do
    let name ← nameOfText path text
    .ok [.leaf name]
  | .object members => ofMapping path members
  | .array items => ofList path 0 items
  | v => .error (.invalidEntry path v.configKind)

/-- The entries that a list permits, from the element at the index on. -/
def ofList (path : Path) (i : Nat) : List Json → Except ConfigFault (List Entry)
  | [] => .ok []
  | v :: vs => do
    let es ← ofItem (path.index i) v
    let fs ← ofList path (i + 1) vs
    .ok (es ++ fs)

/-- The entries that an element of a list permits. -/
def ofItem (path : Path) : Json → Except ConfigFault (List Entry)
  | .string text => do
    let name ← nameOfText path text
    .ok [.leaf name]
  | .object members => ofMapping path members
  | .array _ => .error (.nestedList path)
  | v => .error (.invalidEntry path v.configKind)

/-- The entries that a mapping permits. -/
def ofMapping (path : Path) : List (String × Json) → Except ConfigFault (List Entry)
  | [] => .ok []
  | (text, v) :: members => do
    let name ← nameOfText path text
    let children ← ofLevel (path.key name) v
    let es ← ofMapping path members
    .ok (.scoped name children :: es)

end

mutual

def toJson : Entry → Json
  | .leaf name => .string name
  | .scoped name children => .object [(name, .array (itemsToJson children))]

def itemsToJson : List Entry → List Json
  | [] => []
  | e :: es => e.toJson :: itemsToJson es

end

variable {α : Type}

mutual

def writeTo (sink : Json.Sink α) : Entry → α
  | .leaf name => sink.string name
  | .scoped name children => sink.object [(name, sink.array (writeItems sink children))]

def writeItems (sink : Json.Sink α) : List Entry → List α
  | [] => []
  | e :: es => e.writeTo sink :: writeItems sink es

end

end Entry

namespace Scope

/-- The allow-list that a JSON value configures. -/
def ofJson : Json → Except ConfigFault Scope
  | .null => .ok .unrestricted
  | v => do
    let entries ← Entry.ofLevel [] v
    .ok (.restricted entries)

/-- The allow-list in a section of a larger document: a section that is not given is no allow-list. -/
def ofSection (v : Json) : Except ConfigFault Scope :=
  match v.given? with
  | none => .ok .unrestricted
  | some level => ofJson level

/-- The allow-list that a JSON text configures. -/
def ofText (text : String) : Except Error Scope :=
  match Json.ofText? text with
  | none => .error .invalidEncoding
  | some v => (ofJson v).mapError ConfigFault.toError

def toJson : Scope → Json
  | .unrestricted => .null
  | .restricted entries => .array (Entry.itemsToJson entries)

/-- Writes the configuration of an allow-list part by part. -/
def writeTo {α : Type} (sink : Json.Sink α) : Scope → α
  | .unrestricted => sink.null
  | .restricted entries => sink.array (Entry.writeItems sink entries)

end Scope

end Facet
