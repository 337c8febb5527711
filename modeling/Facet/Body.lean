import Facet.Json.Printer
import Facet.Text.Blank

/-!
# Response bodies

A body is a JSON value, or bytes with the type of their content. Bytes of a JSON type can be read as
a value; a body that cannot be read stays as it is. Which bytes hold a value, and which one, is for a
decoder to say. Any decoder will do: nothing here depends on the choice.
-/

set_option autoImplicit false

namespace Facet

/-- A way to read bytes: the value that they hold, if they hold one. -/
abbrev Json.Decoder := ByteArray → Option Json

/-- The body of a response. -/
inductive Body where
  | json (value : Json)
  | raw (contentType : String) (bytes : ByteArray)

namespace Body

/-- Is it a type of JSON content? What counts stands before the first semicolon, in capitals or
not. -/
def isJsonType (contentType : String) : Bool :=
  let essence := (Text.trim (contentType.toList.takeWhile (· ≠ ';'))).map Char.toLower
  essence = "application/json".toList || "+json".toList.isSuffixOf essence

/-- The value of a JSON body, without reading bytes. -/
def value? : Body → Option Json
  | .json v => some v
  | .raw _ _ => none

/-- The value of the body, or the body itself if it has none. -/
def read (decode : Json.Decoder) : Body → Except Body Json
  | .json v => .ok v
  | .raw contentType bytes =>
    match if isJsonType contentType then decode bytes else none with
    | some v => .ok v
    | none => .error (.raw contentType bytes)

theorem read_raw {decode : Json.Decoder} {contentType : String} {bytes : ByteArray} {v : Json}
    (htype : isJsonType contentType = true) (hbytes : decode bytes = some v) :
    (raw contentType bytes).read decode = .ok v := by
  simp [read, htype, hbytes]

def toBytes : Body → ByteArray
  | .json v => v.compact.toUTF8
  | .raw _ bytes => bytes

/-- Why nothing can be attached to a body. -/
inductive AttachFault where
  | notObject
  | notJson
deriving DecidableEq

/-- Sets a member of a body that is an object; no body counts as an object without members. A body
that is none comes back as read, with the reason. -/
def attach (decode : Json.Decoder) (key : String) (value : Json) :
    Option Body → Body × Option AttachFault
  | none => (.json (.object [(key, value)]), none)
  | some body =>
    match body.read decode with
    | .ok (.object members) => (.json (.object (Members.insert key value members)), none)
    | .ok v => (.json v, some .notObject)
    | .error unread => (unread, some .notJson)

end Body

end Facet
