import Facet.CommandLine.Arguments
import Facet.Json.Document
import Facet.Renderer
import Facet.Selector.Json
import Facet.Settings

/-!
# Commands

`project` projects a JSON document and prints the outcome; `parse` prints the nodes of a selector. A
command names the sources that it reads; given their texts it prints one JSON value, or fails without
printing anything.
-/

set_option autoImplicit false

namespace Facet.CommandLine

/-- Where a text is read from. -/
inductive Source where
  | standardInput
  | file (path : String)
deriving DecidableEq

/-- What a projection is asked for on the command line. -/
structure Projecting where
  input : Source
  permissions : Option String
  config : Option String
  overrides : Overrides
  request : Request
  isCompact : Bool

inductive Command where
  | project (p : Projecting)
  | parse (selector : String)

/-! ## Reading the command line -/

/-- The flag that every command takes, and that may stand before its name. -/
def globalSpecs : List OptionSpec := [⟨"json-logs", none, false⟩]

/-- What a projection can be asked for. -/
def projectSpecs : List OptionSpec :=
  [⟨"input", some 'i', true⟩, ⟨"fields", some 'f', true⟩, ⟨"permissions", some 'p', true⟩,
    ⟨"config", some 'c', true⟩, ⟨"wrap", none, true⟩, ⟨"order-key", none, true⟩,
    ⟨"quiet-denied", none, false⟩, ⟨"metadata", some 'm', false⟩, ⟨"debug", some 'd', true⟩,
    ⟨"compact", none, false⟩] ++ globalSpecs

/-- A value that is given and fails to be read is a fault. -/
def readValue {α : Type} (reader : String → Option α) : Option String → Option (Option α)
  | none => some none
  | some text => some <$> reader text

/-- The path of a file, which is not empty. -/
def path? (text : String) : Option String := if text = "" then none else some text

/-- The source of a document; a dash alone is standard input. -/
def Source.ofText (text : String) : Source := if text = "-" then .standardInput else .file text

/-- Reads the arguments of a projection. -/
def Projecting.ofArguments? (args : List Argument) : Option Projecting := do
  let input ← Argument.value? "input" args
  let fields ← Argument.value? "fields" args
  let permissions ← Argument.value? "permissions" args >>= readValue path?
  let config ← Argument.value? "config" args >>= readValue path?
  let wrapping ← Argument.value? "wrap" args >>= readValue Wrapping.ofName?
  let orderKey ← Argument.value? "order-key" args
  let quietDenied ← Argument.flag? "quiet-denied" args
  let metadata ← Argument.flag? "metadata" args
  let debug ← Argument.value? "debug" args >>= readValue DebugLevel.ofName?
  let isCompact ← Argument.flag? "compact" args
  some {
    input := (input.map Source.ofText).getD .standardInput
    permissions := permissions
    config := config
    overrides := ⟨wrapping, orderKey, quietDenied⟩
    request := ⟨fields, metadata, debug.getD .none⟩
    isCompact := isCompact }

/-- Reads the name of a command and its arguments. -/
def Command.ofNamed? (name : String) (args : List String) : Option Command := do
  match name with
  | "project" =>
    let args ← readAll projectSpecs none args
    let _ ← Argument.flag? "json-logs" args
    if Argument.operands args = [] then .project <$> Projecting.ofArguments? args else none
  | "parse" =>
    let args ← readAll globalSpecs none args
    let _ ← Argument.flag? "json-logs" args
    match Argument.operands args with
    | [selector] => some (.parse selector)
    | _ => none
  | _ => none

/-- Reads a command line: the name of a command is its first operand. -/
def Command.ofArgs? (args : List String) : Option Command :=
  let names := args.takeWhile (·.startsWith "-")
  match args.dropWhile (·.startsWith "-") with
  | [] => none
  | name :: rest =>
    if names.all (· ≠ "--") then do
      let before ← readAll globalSpecs none names
      let _ ← Argument.flag? "json-logs" before
      if Argument.operands before = [] then Command.ofNamed? name rest else none
    else none

/-! ## Carrying out a command -/

/-- The value that a projection of a document prints. -/
def projected (decode : Json.Decoder) (document : Json) (request : Request)
    (config : ProjectorConfig) (permissions : Scope) : Except Error Json := do
  let r : Renderer := ⟨config, permissions⟩
  let answer ← r.render decode (Graph.ofJson document) request (some (.json document))
  match answer.body with
  | some (.json v) => .ok v
  | some (.raw _ _) | none => .ok .null

/-- A missing text or value, as an error. -/
def required {α : Type} (error : Error) : Option α → Except Error α
  | some a => .ok a
  | none => .error error

/-- Carries out a projection, given what can be read from sources. -/
def Projecting.run (decode : Json.Decoder) (read : Source → Option String) (p : Projecting) :
    Except Error Json := do
  let settings ← match p.config with
    | none => .ok Settings.default
    | some path =>
      required (.invalidConfig path) (read (.file path) >>= Settings.ofText?)
  let permissions ← match p.permissions with
    | none => .ok settings.permissions
    | some path => required (.invalidConfig path) (read (.file path)) >>= Scope.ofText
  let document ← required .invalidEncoding (read p.input >>= Document.ofText?)
  projected decode document.value p.request (p.overrides.apply settings.projector) permissions

/-- The sources that a command reads. -/
def Command.sources : Command → List Source
  | .project p => p.input :: (p.permissions.toList ++ p.config.toList).map .file
  | .parse _ => []

/-- The text that a command prints. -/
def Command.run (decode : Json.Decoder) (read : Source → Option String) :
    Command → Except Error String
  | .project p => do
    let v ← p.run decode read
    .ok (if p.isCompact then v.compact else v.indented)
  | .parse selector => do
    let nodes ← (Selector.parse selector).mapError .selector
    .ok (Selector.nodesToJson nodes).indented

/-- What is left when a command line has been carried out. -/
structure Outcome where
  exitCode : UInt32
  output : String

/-- A line of output and success; an error of the command; an error in its arguments. -/
def outcome (decode : Json.Decoder) (read : Source → Option String) (args : List String) :
    Outcome :=
  match Command.ofArgs? args with
  | none => ⟨2, ""⟩
  | some command =>
    match command.run decode read with
    | .ok text => ⟨0, text ++ "\n"⟩
    | .error _ => ⟨1, ""⟩

end Facet.CommandLine
