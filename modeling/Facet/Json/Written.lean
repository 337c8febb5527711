import Facet.Decimal.Nearest
import Facet.Json.Basic

/-!
# JSON documents as written

A `Written` document has the shape of a JSON text, with its literals as they stand there: numbers as
decimals of any size, strings with their escapes, objects with repeated keys. `value?` reads the
literals. It fails where a number is too large for a double, an escape is half of a surrogate pair,
or containers are nested too deep; a part of a document that nobody reads may have such faults.
-/

set_option autoImplicit false

namespace Facet.Json

/-- A number as written: `significand * 10 ^ exponent`. -/
structure Numeral where
  negative : Bool
  significand : Nat
  exponent : Int
  /-- Whether it is written with neither a fraction nor an exponent. -/
  plain : Bool

/-- A character of a string as written: itself, or a 16-bit unit given by its number. -/
inductive Glyph where
  | char (c : Char)
  | unit (u : Nat)

/-- A JSON document as written. -/
inductive Written where
  | null
  | bool (b : Bool)
  | number (n : Numeral)
  | string (s : List Glyph)
  | array (items : List Written)
  | object (members : List (List Glyph × Written))

/-- The characters meant: two units that form a surrogate pair are one character, and a unit that is
half of a pair is none. -/
def Glyph.chars? : List Glyph → Option (List Char)
  | [] => some []
  | .char c :: gs => (c :: ·) <$> chars? gs
  | .unit u :: .unit v :: gs =>
    if 0xD800 ≤ u ∧ u < 0xDC00 ∧ 0xDC00 ≤ v ∧ v < 0xE000 then
      (Char.ofNat (0x10000 + (u - 0xD800) * 0x400 + (v - 0xDC00)) :: ·) <$> chars? gs
    else if 0xD800 ≤ u ∧ u < 0xE000 then none
    else (Char.ofNat u :: ·) <$> chars? (.unit v :: gs)
  | .unit u :: gs =>
    if 0xD800 ≤ u ∧ u < 0xE000 then none else (Char.ofNat u :: ·) <$> chars? gs

/-- The string meant. -/
def Glyph.text? (gs : List Glyph) : Option String := String.ofList <$> chars? gs

/-- The number meant: an integer if it is written as one and can be kept exactly, otherwise the
nearest double. Minus zero is a double. -/
def Numeral.value? (n : Numeral) : Option Number :=
  let signed : Int := if n.negative then -n.significand else n.significand
  if h : inRange signed ∧ n.plain ∧ ¬ (n.negative ∧ n.significand = 0) then
    some (.integer signed h.1)
  else do
    let x ← Decimal.nearest n.negative n.significand n.exponent
    if h : x.isFinite then some (.float x h) else none

namespace Written

mutual

/-- The value of a document whose containers are nested at most `depth` deep. A repeated key keeps
its first place and takes its last value. -/
def value? : Nat → Written → Option Json
  | _, .null => some .null
  | _, .bool b => some (.bool b)
  | _, .number n => .number <$> n.value?
  | _, .string s => .string <$> Glyph.text? s
  | 0, .array _ | 0, .object _ => none
  | depth + 1, .array items => .array <$> values? depth items
  | depth + 1, .object members => (.object ∘ Members.ofPairs) <$> pairs? depth members

/-- The values of the elements of an array. -/
def values? : Nat → List Written → Option (List Json)
  | _, [] => some []
  | depth, w :: ws => do
    let v ← value? depth w
    let vs ← values? depth ws
    some (v :: vs)

/-- The keys and values of the members of an object. -/
def pairs? : Nat → List (List Glyph × Written) → Option (List (String × Json))
  | _, [] => some []
  | depth, (k, w) :: ws => do
    let k ← Glyph.text? k
    let v ← value? depth w
    let vs ← pairs? depth ws
    some ((k, v) :: vs)

end

end Written

/-- How deep the containers of a document may be nested. -/
def maxDepth : Nat := 127

end Facet.Json
