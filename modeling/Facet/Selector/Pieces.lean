import Facet.Text.Extent

/-!
# Braces and commas of a selector

A comma separates fields only outside braces. `pieces` cuts a text at such commas and `block?` at the
brace that closes a block; both follow the depth of open braces from character to character.
-/

set_option autoImplicit false

namespace Facet.Selector

/-- The depth of open braces after a character; none if it closes a brace that is not open. -/
def depthAfter? (depth : Nat) (c : Char) : Option Nat :=
  if c = '{' then some (depth + 1)
  else if c = '}' then (if depth = 0 then none else some (depth - 1))
  else some depth

/-- The depth of open braces after a text. -/
def textDepth? (depth : Nat) : List Char → Option Nat
  | [] => some depth
  | c :: s => depthAfter? depth c >>= fun d => textDepth? d s

/-- Does every brace of the text have its partner? -/
def balanced (s : List Char) : Bool := textDepth? 0 s = some 0

/-- The text up to the first comma outside braces, and the texts between such commas after it. -/
def cut (depth : Nat) : List Char → List Char × List (List Char)
  | [] => ([], [])
  | c :: s =>
    if c = ',' ∧ depth = 0 then
      let rest := cut 0 s
      ([], rest.1 :: rest.2)
    else
      let rest := cut ((depthAfter? depth c).getD depth) s
      (c :: rest.1, rest.2)

/-- The texts between the commas outside braces. -/
def pieces (s : List Char) : List (List Char) :=
  let first := cut 0 s
  first.1 :: first.2

/-- Cuts a text within an open block into the rest of the block and what follows its closing brace,
given how many braces have been opened in the block. -/
def block? (depth : Nat) : List Char → Option (List Char × List Char)
  | [] => none
  | c :: s =>
    match depthAfter? depth c with
    | none => some ([], s)
    | some d => (block? d s).map fun b => (c :: b.1, b.2)

/-- The length of texts with a comma after each. -/
def joinedLength : List (List Char) → Nat
  | [] => 0
  | p :: ps => p.length + 1 + joinedLength ps

/-- The cut pieces and the commas between them make up the text. -/
theorem joinedLength_cut (depth : Nat) (s : List Char) :
    (cut depth s).1.length + joinedLength (cut depth s).2 = s.length := by
  induction s generalizing depth with
  | nil => simp [cut, joinedLength]
  | cons c s ih =>
    rw [cut]
    split
    · have := ih 0
      simp only [List.length_nil, joinedLength, List.length_cons]
      omega
    · have := ih ((depthAfter? depth c).getD depth)
      simp only [List.length_cons]
      omega

theorem joinedLength_pieces (s : List Char) : joinedLength (pieces s) = s.length + 1 := by
  have := joinedLength_cut 0 s
  simp only [pieces, joinedLength]
  omega

theorem length_of_block? {depth : Nat} {s inner rest : List Char}
    (h : block? depth s = some (inner, rest)) : inner.length + 1 + rest.length = s.length := by
  induction s generalizing depth inner rest with
  | nil => cases h
  | cons c s ih =>
    rw [block?] at h
    split at h
    · cases h; simp; omega
    · obtain ⟨⟨i, r⟩, hb, he⟩ := Option.map_eq_some_iff.1 h
      cases he
      have := ih hb
      simp; omega

end Facet.Selector
