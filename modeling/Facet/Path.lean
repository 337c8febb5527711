/-!
# Paths

A path leads from the root of a tree of values to a place in it, by keys and indexes. Its text is
built from the root's text: a key follows a point, unless nothing stands before it, and an index is
in brackets.
-/

set_option autoImplicit false

namespace Facet

/-- One step down a tree of values. -/
inductive Step where
  | key (name : String)
  | index (i : Nat)
deriving DecidableEq, Repr

/-- The steps from a root, outermost first. -/
abbrev Path := List Step

namespace Path

/-- The path to the value under a key. -/
def key (p : Path) (name : String) : Path := p ++ [.key name]

/-- The path to an element. -/
def index (p : Path) (i : Nat) : Path := p ++ [.index i]

/-- The text of a place and of one step from it. -/
def extend (text : String) : Step → String
  | .key name => if text = "" then name else text ++ "." ++ name
  | .index i => text ++ "[" ++ toString i ++ "]"

/-- The text of the path, for a root that is written as given. -/
def render (root : String) (p : Path) : String := p.foldl extend root

end Path

end Facet
