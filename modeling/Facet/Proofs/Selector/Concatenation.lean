import Facet.Proofs.Selector.Offsets

/-!
# Selectors put together

A selector behind a comma adds its nodes to those in front of it, and a selector in the braces of a
field is the children of its node; their faults are found where they then stand (`parse_joined`).

The readers go through a joined text part by part (`selection_append_comma`,
`selection_block_name`), once the braces of the whole text are found to be balanced. So if the braces
behind the comma are not, that is reported first, whatever is wrong in front of it; and a text with a
fault that is not one of braces has balanced braces (`textDepth?_of_selection_eq_error`).
-/

set_option autoImplicit false

namespace Facet.Selector

open Text (isBlank trim byteLength)

variable {s t : List Char} {ps : List (List Char)} {ms : List Node} {position d : Nat}
  {name : String} {fault : Fault}

/-! ## Pieces -/

theorem cut_append_comma (h : textDepth? d s = some 0) (t : List Char) :
    cut d (s ++ ',' :: t) = ((cut d s).1, (cut d s).2 ++ pieces t) := by
  induction s generalizing d with
  | nil =>
    cases h
    simp [cut, pieces]
  | cons c s ih =>
    obtain ⟨e, hd, h⟩ := textDepth?_cons.1 h
    rw [List.cons_append, cut, cut]
    split
    · next hc =>
      obtain ⟨rfl, rfl⟩ := hc
      cases hd
      rw [ih h]
      rfl
    · rw [hd, Option.getD_some, ih h]

/-- A comma behind a balanced text separates its pieces from those of what follows. -/
theorem pieces_append_comma (h : textDepth? 0 s = some 0) (t : List Char) :
    pieces (s ++ ',' :: t) = pieces s ++ pieces t := by
  rw [pieces, cut_append_comma h]
  rfl

/-! ## Fields in a row -/

/-- Fields in a row are read one after the other, those behind from where they start. -/
theorem fields_append (hps : ps ≠ []) (qs : List (List Char)) :
    fields position (ps ++ qs) = (do
      let ms ← fields position ps
      let ns ← fields (position + byteLength (joined ps) + 1) qs
      .ok (ms ++ ns)) := by
  induction ps generalizing position with
  | nil => exact absurd rfl hps
  | cons p ps ih =>
    rw [List.cons_append, fields, fields]
    cases field position p with
    | error fault => rfl
    | ok n =>
      cases ps with
      | nil =>
        rw [fields]
        rfl
      | cons q ps =>
        have hstart : position + byteLength (joined (p :: q :: ps)) + 1 =
            position + byteLength p + 1 + byteLength (joined (q :: ps)) + 1 := by
          rw [byteLength_joined_cons p (List.cons_ne_nil q ps)]
          omega
        rw [hstart]
        show (do
          let ns ← fields (position + byteLength p + 1) (q :: ps ++ qs)
          .ok (n :: ns)) = _
        rw [ih (List.cons_ne_nil q ps)]
        cases fields (position + byteLength p + 1) (q :: ps) with
        | error fault => rfl
        | ok ms =>
          cases fields (position + byteLength p + 1 + byteLength (joined (q :: ps)) + 1) qs <;> rfl

/-! ## Selections in a row -/

/-- The braces behind a balanced text and a comma are checked as if the check started there. -/
theorem braceFault?_append_comma (hs : textDepth? 0 s = some 0) :
    braceFault? 0 position (s ++ ',' :: t) = braceFault? 0 (position + byteLength s + 1) t := by
  rw [braceFault?_append hs]
  rfl

theorem selection_append_comma (hs : textDepth? 0 s = some 0) (ht : textDepth? 0 t = some 0) :
    selection position (s ++ ',' :: t) = (do
      let ms ← selection position s
      let ns ← selection (position + byteLength s + 1) t
      .ok (ms ++ ns)) := by
  rw [selection, selection, selection, braceFault?_append_comma hs,
    (braceFault?_eq_none_iff _).2 hs, (braceFault?_eq_none_iff _).2 ht, pieces_append_comma hs]
  have hstart : byteLength (joined (pieces s)) = byteLength s := by rw [joined_pieces]
  rw [← hstart]
  exact fields_append (List.cons_ne_nil _ _) (pieces t)

/-- Behind a selection that is read and a comma all is read as it would be alone. -/
theorem selection_append_of_eq_ok (h : selection position s = .ok ms) :
    selection position (s ++ ',' :: t) =
      (selection (position + byteLength s + 1) t).map (ms ++ ·) := by
  have hs := (selection_eq_ok_iff.1 h).1
  cases hf : braceFault? 0 (position + byteLength s + 1) t with
  | some fault =>
    rw [selection, selection, braceFault?_append_comma hs, hf]
    rfl
  | none =>
    rw [selection_append_comma hs ((braceFault?_eq_none_iff _).1 hf), h]
    cases selection (position + byteLength s + 1) t <;> rfl

theorem isBraceFault_of_braceFault? (h : braceFault? d position s = some fault) :
    fault.kind.isBraceFault = true := by
  induction s generalizing d position with
  | nil =>
    rw [braceFault?] at h
    split at h
    · cases h
    · cases h
      rfl
  | cons c s ih =>
    rw [braceFault?] at h
    split at h
    · cases h
      rfl
    · exact ih h

/-- Where a fault is not one of braces, the braces are balanced. -/
theorem textDepth?_of_selection_eq_error (h : selection position s = .error fault)
    (hk : fault.kind.isBraceFault = false) : textDepth? 0 s = some 0 := by
  cases hf : braceFault? 0 position s with
  | none => exact (braceFault?_eq_none_iff position).1 hf
  | some f =>
    rw [selection, hf] at h
    cases h
    rw [isBraceFault_of_braceFault? hf] at hk
    cases hk

/-- A fault that is not one of braces comes before all that stands behind a comma. -/
theorem selection_append_of_eq_error (h : selection position s = .error fault)
    (hk : fault.kind.isBraceFault = false) (ht : textDepth? 0 t = some 0) :
    selection position (s ++ ',' :: t) = .error fault := by
  rw [selection_append_comma (textDepth?_of_selection_eq_error h hk) ht, h]
  rfl

/-! ## Selections in braces -/

section
variable (hn : IsName name) (hs : textDepth? 0 s = some 0)
include hn hs

/-- A name with a block behind it is cut into the two. -/
theorem parts?_trim_block : trim (name.toList ++ ('{' :: s ++ ['}'])) ≠ [] ∧
    parts? (trim (name.toList ++ ('{' :: s ++ ['}']))) = some ⟨name.toList, some s, []⟩ := by
  have htrim := hn.trim_append (v := '{' :: s) (s := []) Text.blank_nil
    (show isBlank '}' = false by decide)
  have hend : Text.trimEnd [] = [] := rfl
  rw [List.nil_append, hend, List.append_assoc] at htrim
  rw [htrim]
  exact ⟨by simp, parts?_block_iff.2 ⟨hn.plain.1, hs, by simp⟩⟩

theorem field_block_name : field position (name.toList ++ ('{' :: s ++ ['}'])) =
    (selection (position + byteLength name.toList + 1) s).map
      fun children => ⟨name, some children, none⟩ := by
  obtain ⟨hne, hparts⟩ := parts?_trim_block hn hs
  have hstart : (name.toList ++ ('{' :: s ++ ['}'])).takeWhile isBlank = [] := by
    obtain ⟨c, r, hc, hblank⟩ := hn.exists_cons
    rw [hc, List.cons_append, List.takeWhile_cons_of_neg (by simp [hblank])]
  have hname : fieldName position (name.toList ++ []) = .ok name := hn.fieldName_append Text.blank_nil
  rw [List.append_nil] at hname
  rw [field_block hne hparts]
  simp only [hstart, Text.byteLength_nil, Nat.add_zero, hname]
  cases selection (position + byteLength name.toList + 1) s <;> rfl

/-- A name with a block behind it is one field, with the selection in the block. -/
theorem selection_block_name : selection position (name.toList ++ ('{' :: s ++ ['}'])) =
    (selection (position + byteLength name.toList + 1) s).map
      fun children => [⟨name, some children, none⟩] := by
  have hleads : Leads 0 (name.toList ++ ('{' :: s ++ ['}'])) 0 :=
    (hn.plain.leads 0).append (leads_block hs)
  rw [selection, (braceFault?_eq_none_iff _).2 hleads.textDepth?, pieces_of_leads hleads]
  simp only [fields, field_block_name hn hs]
  cases selection (position + byteLength name.toList + 1) s <;> rfl

end

/-! ## Selectors -/

theorem balanced_iff : balanced s = true ↔ textDepth? 0 s = some 0 := decide_eq_true_iff

/-- **Selectors put together.** An accepted selector in front of a comma adds its nodes to those of
the selector behind it, whose faults are found as much later as it stands. A fault in front of the
comma that is not one of braces is reported as it is without what follows, if the braces there are
balanced. And a balanced selector in braces behind a name is the children of the node of the name, or
has its fault as much later as it stands. -/
theorem parse_joined (s₁ s₂ name : String) :
    (∀ ms, parse s₁ = .ok ms → parse (s₁ ++ "," ++ s₂) =
      ((parse s₂).map (ms ++ ·)).mapError (Fault.later (s₁.utf8ByteSize + 1))) ∧
    (∀ fault, parse s₁ = .error fault → fault.kind.isBraceFault = false →
      balanced s₂.toList = true → parse (s₁ ++ "," ++ s₂) = .error fault) ∧
    (IsName name → balanced s₂.toList = true → parse (name ++ "\x7b" ++ s₂ ++ "\x7d") =
      ((parse s₂).map fun children => [⟨name, some children, none⟩]).mapError
        (Fault.later (name.utf8ByteSize + 1))) := by
  have hcomma : (s₁ ++ "," ++ s₂).toList = s₁.toList ++ ',' :: s₂.toList := by simp
  have hbraces : (name ++ "\x7b" ++ s₂ ++ "\x7d").toList =
      name.toList ++ ('{' :: s₂.toList ++ ['}']) := by simp
  have hlength : ∀ s : String, byteLength s.toList = s.utf8ByteSize := by
    intro s
    rw [Text.byteLength_eq_utf8ByteSize, String.ofList_toList]
  refine ⟨fun ms h => ?_, fun fault h hk hb => ?_, fun hn hb => ?_⟩
  · rw [parse, hcomma, selection_append_of_eq_ok h, hlength, Nat.add_assoc, selection_add, parse]
    cases selection 0 s₂.toList <;> rfl
  · rw [parse, hcomma]
    exact selection_append_of_eq_error h hk (balanced_iff.1 hb)
  · rw [parse, hbraces, selection_block_name hn (balanced_iff.1 hb), hlength, Nat.add_assoc,
      selection_add, parse]
    cases selection 0 s₂.toList <;> rfl

/-- A field with a block, under a name that takes two bytes. -/
def accented : String := "é\x7ba\x7d"

/-- The second of two fields has a blank in its name. -/
def parted : String := "b,c d"

/-- Behind a comma and in braces the blank is found later, in front of a comma where it is alone. -/
theorem parse_joined_accented :
    parse (accented ++ "," ++ accented) =
      .ok [⟨"é", some [⟨"a", none, none⟩], none⟩, ⟨"é", some [⟨"a", none, none⟩], none⟩] ∧
    parse (accented ++ "," ++ parted) = .error ⟨8, .invalidCharacter ' ' "c d".toList⟩ ∧
    parse (parted ++ "," ++ accented) = .error ⟨2, .invalidCharacter ' ' "c d".toList⟩ ∧
    parse ("é" ++ "\x7b" ++ parted ++ "\x7d") = .error ⟨5, .invalidCharacter ' ' "c d".toList⟩ := by
  have ha : parse accented = .ok [⟨"é", some [⟨"a", none, none⟩], none⟩] := by decide +kernel
  have hp : parse parted = .error ⟨2, .invalidCharacter ' ' "c d".toList⟩ := by decide +kernel
  have hba : balanced accented.toList = true := by decide
  have hbp : balanced parted.toList = true := by decide
  have hn : IsName "é" := isName_of_fieldName rfl
  obtain ⟨hok, -, -⟩ := parse_joined accented accented "é"
  obtain ⟨hbehind, -, hbraces⟩ := parse_joined accented parted "é"
  obtain ⟨-, hfront, -⟩ := parse_joined parted accented "é"
  refine ⟨?_, ?_, hfront _ hp rfl hba, ?_⟩
  · rw [hok _ ha, ha]
    rfl
  · rw [hbehind _ ha, hp]
    rfl
  · rw [hbraces hn hbp, hp]
    rfl

-- A brace that is not closed is reported first, although there is no field in front of the comma.
example : parse " ,a\x7b" = .error ⟨4, .unclosedOpen⟩ := by decide +kernel

end Facet.Selector
