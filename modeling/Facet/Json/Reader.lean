import Facet.Json.Written

/-!
# Reading JSON texts

A text is cut into tokens, and the tokens are put together with a stack of the containers that are
still open. The grammar is the strict one: no comments, no trailing commas, no leading zeros, no raw
control characters in strings, nothing but white space after the document.
-/

set_option autoImplicit false

namespace Facet.Json

namespace Reader

/-- A word of a JSON text. -/
inductive Token where
  | openArray
  | closeArray
  | openObject
  | closeObject
  | comma
  | colon
  | null
  | bool (b : Bool)
  | number (n : Numeral)
  | string (s : List Glyph)

/-! ## Numbers -/

/-- The value of decimal digits. -/
def digitsValue (ds : List Char) : Nat := ds.foldl (fun n d => 10 * n + (d.toNat - '0'.toNat)) 0

/-- The digits that the text starts with; there has to be one. -/
def cutDigits (s : List Char) : Option (List Char × List Char) :=
  if (s.takeWhile Char.isDigit).isEmpty then none
  else some (s.takeWhile Char.isDigit, s.dropWhile Char.isDigit)

/-- The whole part of a number: a zero, or digits that start with another digit. -/
def cutWhole : List Char → Option (List Char × List Char)
  | '0' :: s => some (['0'], s)
  | s => cutDigits s

/-- The digits after the point, if there is a point. -/
def cutFraction : List Char → Option (List Char × List Char)
  | '.' :: s => cutDigits s
  | s => some ([], s)

/-- An integer that may have a sign. -/
def cutSigned : List Char → Option (Int × List Char)
  | '-' :: s => (cutDigits s).map fun p => (-(digitsValue p.1 : Int), p.2)
  | '+' :: s => (cutDigits s).map fun p => ((digitsValue p.1 : Int), p.2)
  | s => (cutDigits s).map fun p => ((digitsValue p.1 : Int), p.2)

/-- The exponent, if there is one. -/
def cutExponent : List Char → Option (Option Int × List Char)
  | 'e' :: s | 'E' :: s => (cutSigned s).map fun p => (some p.1, p.2)
  | s => some (none, s)

/-- A number without its sign. -/
def cutNumeral (negative : Bool) (s : List Char) : Option (Token × List Char) := do
  let (whole, s) ← cutWhole s
  let (fraction, s) ← cutFraction s
  let (exponent, s) ← cutExponent s
  some (.number {
    negative := negative
    significand := digitsValue (whole ++ fraction)
    exponent := exponent.getD 0 - fraction.length
    plain := fraction.isEmpty && exponent.isNone }, s)

/-! ## Strings -/

/-- The value of a hexadecimal digit. -/
def hexValue (c : Char) : Option Nat :=
  if c.isDigit then some (c.toNat - '0'.toNat)
  else if 'a' ≤ c ∧ c ≤ 'f' then some (c.toNat - 'a'.toNat + 10)
  else if 'A' ≤ c ∧ c ≤ 'F' then some (c.toNat - 'A'.toNat + 10)
  else none

/-- The character that an escape of one letter stands for. -/
def unescaped : Char → Option Char
  | '"' => some '"'
  | '\\' => some '\\'
  | '/' => some '/'
  | 'b' => some '\x08'
  | 'f' => some '\x0c'
  | 'n' => some '\n'
  | 'r' => some '\r'
  | 't' => some '\t'
  | _ => none

/-- The rest of a string whose opening quote and first characters, latest first, have been read. -/
def cutString (done : List Glyph) : List Char → Option (Token × List Char)
  | '"' :: s => some (.string done.reverse, s)
  | '\\' :: 'u' :: a :: b :: c :: d :: s => do
    let a ← hexValue a
    let b ← hexValue b
    let c ← hexValue c
    let d ← hexValue d
    cutString (.unit (((a * 16 + b) * 16 + c) * 16 + d) :: done) s
  | '\\' :: e :: s => do
    let c ← unescaped e
    cutString (.char c :: done) s
  | c :: s => if c.toNat < 0x20 ∨ c = '\\' then none else cutString (.char c :: done) s
  | [] => none

/-! ## Tokens -/

/-- White space between tokens. -/
def isSpace (c : Char) : Bool := c = ' ' || c = '\t' || c = '\n' || c = '\r'

/-- A word that stands for a token. -/
def cutWord (word : List Char) (t : Token) (s : List Char) : Option (Token × List Char) :=
  if word.isPrefixOf s then some (t, s.drop word.length) else none

/-- The token that starts with the character `c`. -/
def cutToken (c : Char) (s : List Char) : Option (Token × List Char) :=
  match c with
  | '[' => some (.openArray, s)
  | ']' => some (.closeArray, s)
  | '{' => some (.openObject, s)
  | '}' => some (.closeObject, s)
  | ',' => some (.comma, s)
  | ':' => some (.colon, s)
  | '"' => cutString [] s
  | 'n' => cutWord ['u', 'l', 'l'] .null s
  | 't' => cutWord ['r', 'u', 'e'] (.bool true) s
  | 'f' => cutWord ['a', 'l', 's', 'e'] (.bool false) s
  | '-' => cutNumeral true s
  | c => cutNumeral false (c :: s)

theorem cutDigits_length {s ds r : List Char} (h : cutDigits s = some (ds, r)) :
    r.length < s.length := by
  unfold cutDigits at h
  split at h
  · cases h
  · next hne =>
    cases h
    cases s with
    | nil => simp at hne
    | cons c s =>
      have hc : c.isDigit = true := by
        cases hd : c.isDigit
        · simp [hd] at hne
        · rfl
      simpa [List.dropWhile_cons, hc, Nat.lt_succ_iff] using
        (List.dropWhile_suffix Char.isDigit (l := s)).length_le

theorem cutWhole_length {s ds r : List Char} (h : cutWhole s = some (ds, r)) :
    r.length < s.length := by
  unfold cutWhole at h
  split at h
  · cases h; simp
  · exact cutDigits_length h

theorem cutFraction_length {s ds r : List Char} (h : cutFraction s = some (ds, r)) :
    r.length ≤ s.length := by
  unfold cutFraction at h
  split at h
  · have := cutDigits_length h; simp; omega
  · cases h; simp

theorem cutSigned_length {s r : List Char} {n : Int} (h : cutSigned s = some (n, r)) :
    r.length < s.length := by
  unfold cutSigned at h
  split at h <;>
    (obtain ⟨⟨ds, t⟩, hd, he⟩ := Option.map_eq_some_iff.1 h
     cases he
     have := cutDigits_length hd
     simp only [List.length_cons] at this ⊢
     omega)

theorem cutExponent_length {s r : List Char} {e : Option Int} (h : cutExponent s = some (e, r)) :
    r.length ≤ s.length := by
  unfold cutExponent at h
  split at h
  · obtain ⟨⟨n, t⟩, hn, he⟩ := Option.map_eq_some_iff.1 h
    cases he
    have := cutSigned_length hn
    simp only [List.length_cons] at this ⊢
    omega
  · obtain ⟨⟨n, t⟩, hn, he⟩ := Option.map_eq_some_iff.1 h
    cases he
    have := cutSigned_length hn
    simp only [List.length_cons] at this ⊢
    omega
  · cases h; simp

theorem cutNumeral_length {b : Bool} {s r : List Char} {t : Token}
    (h : cutNumeral b s = some (t, r)) : r.length < s.length := by
  simp only [cutNumeral, Option.bind_eq_bind, Option.bind_eq_some_iff] at h
  obtain ⟨⟨w, s₁⟩, h₁, ⟨f, s₂⟩, h₂, ⟨e, s₃⟩, h₃, h₄⟩ := h
  cases h₄
  have := cutWhole_length h₁
  have := cutFraction_length h₂
  have := cutExponent_length h₃
  simp only at *
  omega

theorem cutString_length {done : List Glyph} {s r : List Char} {t : Token}
    (h : cutString done s = some (t, r)) : r.length ≤ s.length := by
  fun_induction cutString done s with
  | case1 done s => cases h; simp
  | case2 done a b c d s ih =>
    simp only [Option.bind_eq_bind, Option.bind_eq_some_iff] at h
    obtain ⟨a, _, b, _, c, _, d, _, h⟩ := h
    have := ih _ _ _ _ h
    simp; omega
  | case3 done e s _ ih =>
    simp only [Option.bind_eq_bind, Option.bind_eq_some_iff] at h
    obtain ⟨c, _, h⟩ := h
    have := ih _ h
    simp; omega
  | case4 => cases h
  | case5 done c s _ _ _ _ ih => have := ih h; simp; omega
  | case6 => cases h

theorem cutToken_length {c : Char} {s r : List Char} {t : Token}
    (h : cutToken c s = some (t, r)) : r.length ≤ s.length := by
  have word (w : List Char) (t' : Token) (h : cutWord w t' s = some (t, r)) :
      r.length ≤ s.length := by
    unfold cutWord at h
    split at h
    · cases h; simp
    · cases h
  unfold cutToken at h
  split at h
  · cases h; exact Nat.le_refl _
  · cases h; exact Nat.le_refl _
  · cases h; exact Nat.le_refl _
  · cases h; exact Nat.le_refl _
  · cases h; exact Nat.le_refl _
  · cases h; exact Nat.le_refl _
  · exact cutString_length h
  · exact word _ _ h
  · exact word _ _ h
  · exact word _ _ h
  · exact Nat.le_of_lt (cutNumeral_length h)
  · exact Nat.lt_succ_iff.1 (cutNumeral_length h)

/-- The tokens of the text, after those already read, latest first. -/
def tokens (done : List Token) (s : List Char) : Option (List Token) :=
  match _hs : s.dropWhile isSpace with
  | [] => some done.reverse
  | c :: r =>
    match _h : cutToken c r with
    | none => none
    | some (t, rest) => tokens (t :: done) rest
termination_by s.length
decreasing_by
  have h₁ := cutToken_length _h
  have h₂ := (List.dropWhile_suffix isSpace (l := s)).length_le
  simp [_hs] at h₂
  omega

/-! ## Documents -/

/-- A container that is still open, with what has been read of it, latest first. -/
inductive Frame where
  | array (done : List Written)
  | object (done : List (List Glyph × Written)) (key : List Glyph)

mutual

/-- Reads a value, within the open containers. -/
def document (stack : List Frame) : List Token → Option Written
  | .null :: ts => resume stack .null ts
  | .bool b :: ts => resume stack (.bool b) ts
  | .number n :: ts => resume stack (.number n) ts
  | .string s :: ts => resume stack (.string s) ts
  | .openArray :: .closeArray :: ts => resume stack (.array []) ts
  | .openArray :: ts => document (.array [] :: stack) ts
  | .openObject :: .closeObject :: ts => resume stack (.object []) ts
  | .openObject :: .string k :: .colon :: ts => document (.object [] k :: stack) ts
  | _ => none

/-- Goes on after a value: the innermost open container gets it, or the text ends. -/
def resume : List Frame → Written → List Token → Option Written
  | [], w, [] => some w
  | .array done :: stack, w, .comma :: ts => document (.array (w :: done) :: stack) ts
  | .array done :: stack, w, .closeArray :: ts => resume stack (.array (w :: done).reverse) ts
  | .object done k :: stack, w, .comma :: .string l :: .colon :: ts =>
    document (.object ((k, w) :: done) l :: stack) ts
  | .object done k :: stack, w, .closeObject :: ts =>
    resume stack (.object ((k, w) :: done).reverse) ts
  | _, _, _ => none

end

end Reader

/-- The document that the text writes down. -/
def Written.ofText? (text : String) : Option Written :=
  Reader.tokens [] text.toList >>= Reader.document []

/-- The value that the text writes down. -/
def ofText? (text : String) : Option Json :=
  Written.ofText? text >>= Written.value? maxDepth

/-- The value that bytes in UTF-8 write down. -/
def ofBytes? (bytes : ByteArray) : Option Json :=
  String.fromUTF8? bytes >>= ofText?

end Facet.Json
