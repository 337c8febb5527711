import Facet.Text.Hidden

/-!
# Quoted texts and characters

A message that cites a text or a character puts it between quotes and escapes what would not be
readable there: the enclosing quote and the backslash, the control characters that have a letter of
their own, and the hidden characters by their code point. Other characters stand for themselves.
-/

set_option autoImplicit false

namespace Facet.Text

/-- A character as it is written between two marks `quote`. -/
def escapedWithin (quote c : Char) : List Char :=
  if c = '\x00' then ['\\', '0']
  else if c = '\t' then ['\\', 't']
  else if c = '\n' then ['\\', 'n']
  else if c = '\r' then ['\\', 'r']
  else if c = '\\' ∨ c = quote then ['\\', c]
  else if isHidden c then ['\\', 'u', '{'] ++ Nat.toDigits 16 c.toNat ++ ['}']
  else [c]

/-- The text between double quotes. -/
def quoted (s : List Char) : List Char := '"' :: s.flatMap (escapedWithin '"') ++ ['"']

/-- The character between single quotes. -/
def quotedChar (c : Char) : List Char := '\'' :: escapedWithin '\'' c ++ ['\'']

end Facet.Text
