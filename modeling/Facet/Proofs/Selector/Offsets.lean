import Facet.Proofs.Selector.Positions

/-!
# Where a selector starts and ends

What a selector is read as does not depend on where it starts, nor on the blanks around it; the
positions of its faults do. A reader that starts later reports them later (`selection_add`). Blanks
in front are as if it started behind them (`selection_append_left`), and of the faults behind the
last character that is not blank those are reported earlier that blanks there would have moved
(`selection_eq_append_right`). So a fault of a trimmed selector is that of the selector, counted from
the first character that is not blank and no further than the last (`parse_trimmed`).
-/

set_option autoImplicit false

namespace Facet.Selector

open Text (Blank isBlank trim byteLength)

variable {s u v text name inner suffix : List Char} {position d : Nat}

/-! ## Moved faults -/

/-- The fault at a later position. -/
def Fault.later (offset : Nat) (fault : Fault) : Fault :=
  ⟨fault.position + offset, fault.kind⟩

/-- The fault at its position, but no further than the end. -/
def Fault.upTo (last : Nat) (fault : Fault) : Fault :=
  ⟨min fault.position last, fault.kind⟩

/-! ## A later start -/

theorem braceFault?_add (offset : Nat) :
    braceFault? d (position + offset) s = (braceFault? d position s).map (Fault.later offset) := by
  induction s generalizing d position with
  | nil =>
    rw [braceFault?, braceFault?]
    split <;> rfl
  | cons c s ih =>
    rw [braceFault?, braceFault?]
    split
    · rfl
    · rw [Nat.add_right_comm, ih]

theorem fieldName_add (offset : Nat) : fieldName (position + offset) text =
    (fieldName position text).mapError (Fault.later offset) := by
  rw [fieldName, fieldName]
  split
  · rfl
  · split <;> rfl

theorem fieldOrder_add (offset : Nat) :
    fieldOrder (position + offset) text =
      (fieldOrder position text).mapError (Fault.later offset) := by
  rw [fieldOrder, fieldOrder]
  split
  · rfl
  · split
    · rfl
    · split
      · rfl
      · split <;> rfl

theorem field_uncut (hne : trim text ≠ []) (hp : parts? (trim text) = none) :
    field position text = .error ⟨position + byteLength (text.takeWhile isBlank) +
      byteLength ((trim text).takeWhile (· ≠ '{')), .unclosedOpen⟩ := by
  rw [field, if_neg (by simpa using hne)]
  split
  · rfl
  · next h => cases hp.symm.trans h
  · next h => cases hp.symm.trans h

/-- What is read at a later position is the same, with its faults at later positions. -/
theorem reading_add (offset : Nat) :
    (∀ position s, selection (position + offset) s =
      (selection position s).mapError (Fault.later offset)) ∧
    (∀ position ps, fields (position + offset) ps =
      (fields position ps).mapError (Fault.later offset)) ∧
    (∀ position text, field (position + offset) text =
      (field position text).mapError (Fault.later offset)) := by
  apply selection.mutual_induct
    (fun position s => selection (position + offset) s =
      (selection position s).mapError (Fault.later offset))
    (fun position ps => fields (position + offset) ps =
      (fields position ps).mapError (Fault.later offset))
    (fun position text => field (position + offset) text =
      (field position text).mapError (Fault.later offset))
  · intro position s fault hf
    rw [selection, selection, braceFault?_add, hf]
    rfl
  · intro position s hf ih
    rw [selection, selection, braceFault?_add, hf]
    exact ih
  · intro position
    rw [fields, fields]
    rfl
  · intro position p ps ihp ihps
    have hstart : position + offset + byteLength p + 1 = position + byteLength p + 1 + offset := by
      omega
    rw [fields, fields, mapError_bind, ihp, hstart, ihps]
    simp only [mapError_bind, mapError_ok]
  · intro position text hblank
    have hb := List.isEmpty_iff.1 hblank
    rw [field_blank hb, field_blank hb, mapError_error, Nat.add_right_comm]
    rfl
  · -- a field that cannot be cut
    intro position text hne hp
    rw [field_uncut (by simpa using hne) hp, field_uncut (by simpa using hne) hp, mapError_error]
    simp only [Fault.later]
    congr 2
    omega
  · intro position text hne name suffix hp
    rw [field_plain (by simpa using hne) hp, field_plain (by simpa using hne) hp]
    simp only [Nat.add_right_comm _ offset, fieldName_add, fieldOrder_add, mapError_bind,
      mapError_ok]
  · intro position text start hne name inner suffix hp ih
    rw [field_block (by simpa using hne) hp, field_block (by simpa using hne) hp]
    simp only [Nat.add_right_comm _ offset, ih, start, fieldName_add, fieldOrder_add, mapError_bind,
      mapError_ok]

theorem selection_add (offset : Nat) : selection (position + offset) s =
    (selection position s).mapError (Fault.later offset) :=
  (reading_add offset).1 position s

/-! ## Blanks in front -/

theorem braceFault?_append {e : Nat} (h : textDepth? d u = some e) (s : List Char) :
    braceFault? d position (u ++ s) = braceFault? e (position + byteLength u) s := by
  induction u generalizing d position with
  | nil => cases h; rfl
  | cons c u ih =>
    obtain ⟨f, hd, h⟩ := textDepth?_cons.1 h
    rw [List.cons_append, braceFault?, hd, Text.byteLength_cons, ← Nat.add_assoc]
    exact ih h

/-- What a field is read as depends on what is between the blanks around it and on where that
starts. -/
theorem field_congr {p q : Nat} (htrim : trim s = trim text)
    (hstart : p + byteLength (s.takeWhile isBlank) = q + byteLength (text.takeWhile isBlank)) :
    field p s = field q text := by
  by_cases hne : trim text = []
  · rw [field_blank (htrim.trans hne), field_blank hne, hstart]
  · have hne' : trim s ≠ [] := htrim ▸ hne
    rcases hp : parts? (trim text) with _ | ⟨name, _ | inner, suffix⟩
    · rw [field_uncut hne' (htrim ▸ hp), field_uncut hne hp, htrim, hstart]
    · rw [field_plain hne' (htrim ▸ hp), field_plain hne hp, hstart]
    · rw [field_block hne' (htrim ▸ hp), field_block hne hp, hstart]

theorem field_append_left (hu : Blank u) :
    field position (u ++ text) = field (position + byteLength u) text := by
  refine field_congr (Text.trim_append_left hu) ?_
  rw [List.takeWhile_append_of_pos hu, Text.byteLength_append, Nat.add_assoc]

theorem selection_append_left (hu : Blank u) :
    selection position (u ++ s) = selection (position + byteLength u) s := by
  have hplain := plain_of_blank hu
  have hpieces : pieces (u ++ s) = (u ++ (cut 0 s).1) :: (cut 0 s).2 := by
    rw [pieces, cut_append (hplain.leads 0)]
  have hnext : position + byteLength (u ++ (cut 0 s).1) + 1 =
      position + byteLength u + byteLength (cut 0 s).1 + 1 := by
    rw [Text.byteLength_append, ← Nat.add_assoc position]
  have hfields : fields position (pieces (u ++ s)) =
      fields (position + byteLength u) (pieces s) := by
    rw [hpieces, pieces, fields, fields, field_append_left hu, hnext]
  rw [selection, selection, braceFault?_append (hplain.leads 0).textDepth?, hfields]

/-! ## Blanks behind -/

theorem braceFault?_eq_append_right (hv : Plain v) : braceFault? d position s =
    (braceFault? d position (s ++ v)).map (Fault.upTo (position + byteLength s)) := by
  induction s generalizing d position with
  | nil =>
    have h : braceFault? d position (v ++ []) = _ := braceFault?_append (hv.leads d).textDepth? []
    rw [List.append_nil] at h
    rw [List.nil_append, h, braceFault?, braceFault?]
    split
    · rfl
    · simp [Fault.upTo]
  | cons c s ih =>
    rw [List.cons_append, braceFault?, braceFault?]
    split
    · simp [Fault.upTo]
    · rw [ih, Text.byteLength_cons, Nat.add_assoc]

theorem exists_cut_append_right (hv : Plain v) (d : Nat) (s : List Char) : ∃ ps p,
    (cut d s).1 :: (cut d s).2 = ps ++ [p] ∧
      (cut d (s ++ v)).1 :: (cut d (s ++ v)).2 = ps ++ [p ++ v] := by
  induction s generalizing d with
  | nil =>
    have h := cut_append (t := []) (hv.leads d)
    rw [List.append_nil] at h
    exact ⟨[], [], by simp [cut], by simp [h, cut]⟩
  | cons c s ih =>
    rw [List.cons_append, cut, cut]
    split
    · obtain ⟨ps, p, hs, hsv⟩ := ih 0
      exact ⟨[] :: ps, p, by simp [hs], by simp [hsv]⟩
    · obtain ⟨ps, p, hs, hsv⟩ := ih ((depthAfter? d c).getD d)
      cases ps with
      | nil => exact ⟨[], c :: p, by simpa using hs, by simpa using hsv⟩
      | cons q ps => exact ⟨(c :: q) :: ps, p, by simpa using hs, by simpa using hsv⟩

/-- A plain text behind a selector goes to its last piece. -/
theorem exists_pieces_append_right (hv : Plain v) (s : List Char) : ∃ ps p,
    pieces s = ps ++ [p] ∧ pieces (s ++ v) = ps ++ [p ++ v] := exists_cut_append_right hv 0 s

/-- A fault of a reader is not behind what it reads. -/
theorem Fault.In.position_le {rest : List Char} {fault : Fault} (h : fault.In position s rest) :
    fault.position ≤ position + byteLength s := by
  obtain ⟨before, after, rfl, hpos, -⟩ := h
  rw [hpos, Text.byteLength_append]
  omega

theorem mapError_field {e : Nat} (hl : Leads 0 text 0) (he : position + byteLength text ≤ e) :
    (field position text).mapError (Fault.upTo e) = field position text := by
  refine mapError_eq_self fun fault h => ?_
  have hpos := (in_of_reading.2.2 position text fault [] h hl (.inl rfl)).position_le
  rw [Fault.upTo, Nat.min_eq_left (hpos.trans he)]

/-- Blanks behind a field count where they are all there is. -/
theorem field_eq_append_right (hv : Blank v) (hl : Leads 0 text 0) : field position text =
    (field position (text ++ v)).mapError (Fault.upTo (position + byteLength text)) := by
  by_cases hblank : trim text = []
  · have hb := Text.trim_eq_nil_iff.1 hblank
    have htext : text.takeWhile isBlank = text := List.takeWhile_eq_self_iff.2 hb
    have hall : (text ++ v).takeWhile isBlank = text ++ v :=
      List.takeWhile_eq_self_iff.2 (Text.blank_append.2 ⟨hb, hv⟩)
    have hmin : min (position + byteLength (text ++ v)) (position + byteLength text) =
        position + byteLength text := by
      rw [Text.byteLength_append]
      omega
    rw [field_blank hblank, field_blank ((Text.trim_append_right hv).trans hblank), htext, hall,
      mapError_error, Fault.upTo, hmin]
  · have hstart : (text ++ v).takeWhile isBlank = text.takeWhile isBlank := by
      rw [List.takeWhile_append, if_neg]
      intro hlen
      have htext := (List.takeWhile_prefix isBlank).eq_of_length hlen
      exact hblank (Text.trim_eq_nil_iff.2 (List.takeWhile_eq_self_iff.1 htext))
    rw [field_congr (Text.trim_append_right hv) (by rw [hstart]), mapError_field hl le_rfl]

theorem byteLength_joined_cons {ps : List (List Char)} (p : List Char) (h : ps ≠ []) :
    byteLength (joined (p :: ps)) = byteLength p + 1 + byteLength (joined ps) := by
  obtain ⟨q, qs, rfl⟩ := List.exists_cons_of_ne_nil h
  rw [joined, Text.byteLength_append, Text.byteLength_cons, Nat.add_assoc]
  rfl

theorem fields_eq_append_right {ps : List (List Char)} {p : List Char} (hv : Blank v)
    (hps : ∀ q ∈ ps, Leads 0 q 0) (hp : Leads 0 p 0) : fields position (ps ++ [p]) =
      (fields position (ps ++ [p ++ v])).mapError
        (Fault.upTo (position + byteLength (joined (ps ++ [p])))) := by
  induction ps generalizing position with
  | nil =>
    simp only [List.nil_append, joined, fields, mapError_bind, mapError_ok,
      ← field_eq_append_right hv hp]
  | cons q ps ih =>
    obtain ⟨hq, hps⟩ := List.forall_mem_cons.1 hps
    have hlast : position + byteLength (joined (q :: (ps ++ [p]))) =
        position + byteLength q + 1 + byteLength (joined (ps ++ [p])) := by
      rw [byteLength_joined_cons q (by simp)]
      omega
    have hfirst : position + byteLength q ≤
        position + byteLength q + 1 + byteLength (joined (ps ++ [p])) := by omega
    rw [List.cons_append, List.cons_append, hlast, fields, fields, mapError_bind,
      mapError_field hq hfirst, ih hps]
    simp only [mapError_bind, mapError_ok]

/-- Without the blanks behind it a selector is read as it is with them, but the faults behind its end
are at its end. -/
theorem selection_eq_append_right (hv : Blank v) : selection position s =
    (selection position (s ++ v)).mapError (Fault.upTo (position + byteLength s)) := by
  have hplain := plain_of_blank hv
  rw [selection, selection, braceFault?_eq_append_right hplain]
  cases hf : braceFault? 0 position (s ++ v) with
  | some fault => rfl
  | none =>
    obtain ⟨ps, p, hs, hsv⟩ := exists_pieces_append_right hplain s
    have hbalanced : textDepth? 0 s = some 0 := by
      rw [← braceFault?_eq_none_iff position, braceFault?_eq_append_right hplain, hf]
      rfl
    have hleads := leads_pieces hbalanced
    rw [hs] at hleads
    have hfields : fields position (ps ++ [p]) = _ :=
      fields_eq_append_right hv (fun q hq => hleads q (List.mem_append_left _ hq))
        (hleads p (by simp))
    rwa [← hs, ← hsv, joined_pieces] at hfields

/-! ## Trimmed selectors -/

/-- The fault of the text, as it is reported for what is between the blanks around the text: its
position counts from there, and does not reach beyond. -/
def Fault.inTrimmed (text : List Char) (fault : Fault) : Fault :=
  ⟨min (fault.position - byteLength (text.takeWhile isBlank)) (byteLength (trim text)), fault.kind⟩

/-- A selector is read as what follows the blanks in front of it, with its faults behind them. -/
theorem exists_parse_eq (selector : String) : ∃ v, Blank v ∧ parse selector =
    (selection 0 (trim selector.toList ++ v)).mapError
      (Fault.later (byteLength (selector.toList.takeWhile isBlank))) := by
  obtain ⟨v, hv, hs⟩ := Text.exists_takeWhile_append_trim selector.toList
  have hu : Blank (selector.toList.takeWhile isBlank) := fun _ hc => List.mem_takeWhile_imp hc
  refine ⟨v, hv, ?_⟩
  rw [← selection_add, ← selection_append_left hu, ← List.append_assoc, ← hs, parse]

/-- A trimmed selector is read as the selector, with its faults counted within the trimmed text. -/
theorem parse_trimmed (selector : String) : parse (Text.trimmed selector) =
    (parse selector).mapError (Fault.inTrimmed selector.toList) := by
  obtain ⟨v, hv, hparse⟩ := exists_parse_eq selector
  have hfault : Fault.inTrimmed selector.toList ∘
      Fault.later (byteLength (selector.toList.takeWhile isBlank)) =
        Fault.upTo (0 + byteLength (trim selector.toList)) := by
    funext fault
    simp [Fault.inTrimmed, Fault.later, Fault.upTo]
  rw [hparse, mapError_mapError, hfault, ← selection_eq_append_right hv, parse, Text.trimmed,
    String.toList_ofList]

-- A field is missing at the end of the text, or of what is left of it.
example : parse "a, " = .error ⟨3, .emptyField⟩ ∧
    parse (Text.trimmed "a, ") = .error ⟨2, .emptyField⟩ := by
  decide +kernel

/-- No fault is in the blanks in front. -/
theorem le_position_of_parse {selector : String} {fault : Fault}
    (h : parse selector = .error fault) :
    byteLength (selector.toList.takeWhile isBlank) ≤ fault.position := by
  obtain ⟨v, -, hparse⟩ := exists_parse_eq selector
  rw [hparse] at h
  cases hs : selection 0 (trim selector.toList ++ v) with
  | ok ns =>
    rw [hs] at h
    cases h
  | error f =>
    rw [hs] at h
    cases h
    exact Nat.le_add_left _ _

/-- Trimming a selector leaves the position of its fault if there are no blanks in front and the
fault is not behind those at the end. -/
theorem inTrimmed_eq_self_iff {selector : String} {fault : Fault}
    (h : parse selector = .error fault) : fault.inTrimmed selector.toList = fault ↔
      Text.trimStart selector.toList = selector.toList ∧
        fault.position ≤ byteLength (trim selector.toList) := by
  have hle := le_position_of_parse h
  rw [Text.trimStart_eq_self_iff, ← Text.byteLength_eq_zero_iff, Fault.inTrimmed]
  constructor
  · intro he
    have hpos : min (fault.position - byteLength (selector.toList.takeWhile isBlank))
        (byteLength (trim selector.toList)) = fault.position := congrArg Fault.position he
    omega
  · rintro ⟨hzero, hlast⟩
    rw [hzero, Nat.sub_zero, Nat.min_eq_left hlast]

end Facet.Selector
