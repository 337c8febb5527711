import Facet.Decimal.Layout
import Facet.Json.Sink

/-!
# Writing JSON texts

Two texts of a value: `compact`, without white space, and `indented`, with each element and member
on a line of its own, two spaces deeper than its container. Doubles are written with the fewest
digits that read back.
-/

set_option autoImplicit false

namespace Facet.Json

/-- Doubles are written without an exponent from 10^-5 up to 10^16; other exponents have their sign.
Of two equally near shortest decimals the even one is written. -/
def numberLayout : Decimal.Layout where
  plainFrom := -5
  plainTo := 15
  plusSign := true
  tie := .toEven

def Number.text : Number → List Char
  | .integer n _ => Decimal.Layout.integer n
  | .float x _ => numberLayout.write x

/-- A character as it is written within quotes. -/
def escaped (c : Char) : List Char :=
  if c = '"' ∨ c = '\\' then ['\\', c]
  else if c = '\x08' then ['\\', 'b']
  else if c = '\x0c' then ['\\', 'f']
  else if c = '\n' then ['\\', 'n']
  else if c = '\r' then ['\\', 'r']
  else if c = '\t' then ['\\', 't']
  else if c.toNat < 0x20 then
    ['\\', 'u', '0', '0', Nat.digitChar (c.toNat / 16), Nat.digitChar (c.toNat % 16)]
  else [c]

def stringText (s : String) : List Char := '"' :: s.toList.flatMap escaped ++ ['"']

/-- Texts with a separator between them. -/
def separated (sep : List Char) (parts : List (List Char)) : List Char := sep.intercalate parts

/-- The sink of texts without white space. -/
def compactSink : Sink (List Char) where
  null := "null".toList
  bool b := (if b then "true" else "false").toList
  number n := n.text
  string s := stringText s
  array items := '[' :: separated [','] items ++ [']']
  object members :=
    '{' :: separated [','] (members.map fun m => stringText m.1 ++ ':' :: m.2) ++ ['}']

/-- The start of a line at a depth. -/
def newline (depth : Nat) : List Char := '\n' :: List.replicate (2 * depth) ' '

/-- A container at a depth: nothing between its brackets, or its parts on lines of their own. -/
def block (opening closing : Char) (parts : List (Nat → List Char)) (depth : Nat) : List Char :=
  if parts.isEmpty then [opening, closing]
  else
    opening :: separated [','] (parts.map fun p => newline (depth + 1) ++ p (depth + 1)) ++
      newline depth ++ [closing]

/-- The sink of texts on several lines, given the depth at which they stand. -/
def indentedSink : Sink (Nat → List Char) where
  null _ := compactSink.null
  bool b _ := compactSink.bool b
  number n _ := n.text
  string s _ := stringText s
  array items := block '[' ']' items
  object members :=
    block '{' '}' (members.map fun m depth => stringText m.1 ++ ':' :: ' ' :: m.2 depth)

/-- The text without white space. -/
def compact (v : Json) : String := String.ofList (writeTo compactSink v)

/-- The text on several lines. -/
def indented (v : Json) : String := String.ofList (writeTo indentedSink v 0)

end Facet.Json
