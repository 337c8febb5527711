import Facet.Json.Basic

/-!
# Building documents part by part

A `Sink` says what becomes of each part of a JSON document: a value of `Json` itself, a text, or
anything else that documents can be turned into. Whoever has something to write as JSON can write it
into any sink; `Json.writeTo` does so for values.
-/

set_option autoImplicit false

namespace Facet.Json

/-- A target for the parts of a document. -/
structure Sink (α : Type) where
  null : α
  bool : Bool → α
  number : Number → α
  string : String → α
  array : List α → α
  object : List (String × α) → α

/-- The sink that builds the value. -/
def valueSink : Sink Json := ⟨.null, .bool, .number, .string, .array, .object⟩

variable {α : Type}

mutual

/-- Writes a value into a sink, innermost parts first. -/
def writeTo (sink : Sink α) : Json → α
  | .null => sink.null
  | .bool b => sink.bool b
  | .number n => sink.number n
  | .string s => sink.string s
  | .array items => sink.array (writeItems sink items)
  | .object members => sink.object (writeMembers sink members)

def writeItems (sink : Sink α) : List Json → List α
  | [] => []
  | v :: vs => writeTo sink v :: writeItems sink vs

def writeMembers (sink : Sink α) : List (String × Json) → List (String × α)
  | [] => []
  | (k, v) :: vs => (k, writeTo sink v) :: writeMembers sink vs

end

def Sink.strings (sink : Sink α) (ss : List String) : α := sink.array (ss.map sink.string)

end Facet.Json
