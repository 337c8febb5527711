import Facet.Selector.Fault
import Facet.Selector.Node
import Facet.Selector.Pieces

/-!
# Reading selectors

A selector is a list of fields with commas between them. A field is a name, a selection in braces if
there is something nested under it, and the order of a nested collection: `posts{title}.order(token)`.
Blanks may stand around each part. A name is not empty and holds no blank and none of the characters
that structure the selector. The closing parenthesis of an order may be missing.

The braces of a text are checked before anything else in it; then its fields are read in turn, and of
each field what is in its braces, its name and its order.
-/

set_option autoImplicit false

namespace Facet.Selector

open Text (byteLength isBlank trim trimStart)

/-! ## Parts of a field -/

/-- The first brace of the text that has no partner, for a text that starts at a depth of open braces
and at a position. An opening brace is missed where the text ends. -/
def braceFault? (depth position : Nat) : List Char → Option Fault
  | [] => if depth = 0 then none else some ⟨position, .unclosedOpen⟩
  | c :: s =>
    match depthAfter? depth c with
    | none => some ⟨position, .unexpectedClose⟩
    | some d => braceFault? d (position + c.utf8Size) s

/-- The characters that structure a selector. -/
def isReserved (c : Char) : Bool :=
  c = '{' || c = '}' || c = '(' || c = ')' || c = ',' || c = '.'

/-- The name in a field that starts at the position. -/
def fieldName (position : Nat) (text : List Char) : Except Fault String :=
  let name := trim text
  if name.isEmpty then .error ⟨position, .missingName⟩
  else match name.find? fun c => isBlank c || isReserved c with
    | some c => .error ⟨position, .invalidCharacter c name⟩
    | none => .ok (String.ofList name)

/-- What follows a word that the text starts with. -/
def afterWord? (word s : List Char) : Option (List Char) :=
  if word.isPrefixOf s then some (s.drop word.length) else none

/-- What follows the opening parenthesis of an order. -/
def orderArguments? (suffix : List Char) : Option (List Char) := do
  let s ← afterWord? ['.'] suffix
  let s ← afterWord? ['o', 'r', 'd', 'e', 'r'] (trimStart s)
  afterWord? ['('] (trimStart s)

/-- Cuts a text at its last closing parenthesis. -/
def atLastParen? : List Char → Option (List Char × List Char)
  | [] => none
  | c :: s =>
    match atLastParen? s with
    | some (before, after) => some (c :: before, after)
    | none => if c = ')' then some ([], s) else none

/-- The order in the text that follows the name or the block of a field, from the position on. -/
def fieldOrder (position : Nat) (text : List Char) : Except Fault (Option OrderDirective) :=
  let suffix := trim text
  if suffix.isEmpty then .ok none
  else match orderArguments? suffix with
    | none => .error ⟨position, .unexpectedSuffix suffix⟩
    | some arguments =>
      match atLastParen? arguments with
      | none => .ok (some (.ofToken (String.ofList arguments)))
      | some (token, after) =>
        if (trim after).isEmpty then .ok (some (.ofToken (String.ofList token)))
        else .error ⟨position, .textAfterOrder suffix⟩

/-- A field cut into its name, what is in its braces, and what follows. -/
structure Parts where
  name : List Char
  inner : Option (List Char)
  suffix : List Char

/-- Cuts a field at its first block, or without a block at its first point. -/
def parts? (field : List Char) : Option Parts :=
  match field.dropWhile (· ≠ '{') with
  | [] => some ⟨field.takeWhile (· ≠ '.'), none, field.dropWhile (· ≠ '.')⟩
  | _ :: s => (block? 0 s).map fun b => ⟨field.takeWhile (· ≠ '{'), some b.1, b.2⟩

theorem length_of_parts? {field name inner suffix : List Char}
    (h : parts? field = some ⟨name, some inner, suffix⟩) : inner.length + 2 ≤ field.length := by
  unfold parts? at h
  split at h
  · cases h
  · next c s hd =>
    obtain ⟨⟨i, r⟩, hb, he⟩ := Option.map_eq_some_iff.1 h
    cases he
    have h₁ := length_of_block? hb
    have h₂ := (List.dropWhile_suffix (fun x : Char => decide (x ≠ '{')) (l := field)).length_le
    simp only [hd, List.length_cons] at h₂
    show i.length + 2 ≤ field.length
    omega

/-! ## Selections -/

mutual

/-- Reads a selection that starts at the position. -/
def selection (position : Nat) (s : List Char) : Except Fault (List Node) :=
  match braceFault? 0 position s with
  | some fault => .error fault
  | none => fields position (pieces s)
termination_by 2 * s.length + 3
decreasing_by
  have := joinedLength_pieces s
  omega

/-- Reads fields, the first of which starts at the position. -/
def fields (position : Nat) (ps : List (List Char)) : Except Fault (List Node) :=
  match ps with
  | [] => .ok []
  | p :: ps => do
    let node ← field position p
    let nodes ← fields (position + byteLength p + 1) ps
    .ok (node :: nodes)
termination_by 2 * joinedLength ps
decreasing_by all_goals simp only [joinedLength]; omega

/-- Reads a field in a text that starts at the position. -/
def field (position : Nat) (text : List Char) : Except Fault Node :=
  let start := position + byteLength (text.takeWhile isBlank)
  if (trim text).isEmpty then .error ⟨start, .emptyField⟩
  else match _h : parts? (trim text) with
    | none => .error ⟨start + byteLength ((trim text).takeWhile (· ≠ '{')), .unclosedOpen⟩
    | some ⟨name, none, suffix⟩ => do
      let fieldName ← fieldName start name
      let order ← fieldOrder (start + byteLength name) suffix
      .ok ⟨fieldName, none, order⟩
    | some ⟨name, some inner, suffix⟩ => do
      let children ← selection (start + byteLength name + 1) inner
      let fieldName ← fieldName start name
      let order ← fieldOrder (start + byteLength name + byteLength inner + 2) suffix
      .ok ⟨fieldName, some children, order⟩
termination_by 2 * text.length + 1
decreasing_by
  have h₁ := length_of_parts? _h
  have h₂ := Text.trim_length_le text
  omega

end

/-- The nodes of a selector. -/
def parse (selector : String) : Except Fault (List Node) := selection 0 selector.toList

end Facet.Selector
