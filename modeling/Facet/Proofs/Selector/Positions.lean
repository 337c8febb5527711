import Facet.Proofs.Selector.Reading

/-!
# Positions of faults

The position of a fault is that of a character in the selector, or its end, and what stands there
shows the fault (`FaultKind.Shows`). This is proved of each reader for the part of the selector that
it reads, wherever the part starts and whatever stands behind it (`Fault.In`); a part that is in
another part takes its faults along (`Fault.In.within`). Only the whole selector can have a fault in
its braces: the texts that are read within it are balanced, so each of their fields is cut into its
parts (`parts?_ne_none`).
-/

set_option autoImplicit false

namespace Facet.Selector

open Text (isBlank trim trimStart byteLength)

variable {s u v rest text name inner suffix : List Char} {position d : Nat} {fault : Fault}

/-! ## What shows a fault -/

/-- What stands at the position of a fault of the kind. -/
def FaultKind.Shows : FaultKind → List Char → Prop
  | .unexpectedClose, s => ∃ t, s = '}' :: t
  | .unclosedOpen, s => s = []
  | .emptyField, s => s = [] ∨ ∃ t, s = ',' :: t ∨ s = '}' :: t
  | .missingName, s => ∃ t, s = '{' :: t ∨ s = '.' :: t
  | .invalidCharacter c name, s => c ∈ name ∧ name <+: s
  | .unexpectedSuffix suffix, s | .textAfterOrder suffix, s => suffix <+: trimStart s

/-- The fault is in the text, which starts at the position and is followed by the rest. -/
def Fault.In (position : Nat) (s rest : List Char) (fault : Fault) : Prop :=
  ∃ before after, s = before ++ after ∧ fault.position = position + byteLength before ∧
    fault.kind.Shows (after ++ rest)

/-- A part of a text lies at its place and is followed by what follows it in the text. -/
theorem Fault.In.within {p : Nat} {rest' : List Char} (h : fault.In p s rest')
    (htext : text = u ++ s ++ v) (hp : p = position + byteLength u) (hrest : rest' = v ++ rest) :
    fault.In position text rest := by
  obtain ⟨before, after, rfl, hpos, hshows⟩ := h
  subst htext hp hrest
  refine ⟨u ++ before, after ++ v, by simp, ?_, ?_⟩
  · rw [hpos, Text.byteLength_append, Nat.add_assoc]
  · rwa [List.append_assoc]

/-! ## Braces -/

/-- The first brace without a partner is where the fault is, or the end of the text. -/
theorem in_of_braceFault? (h : braceFault? d position s = some fault) : fault.In position s [] := by
  induction s generalizing d position with
  | nil =>
    rw [braceFault?] at h
    split at h
    · cases h
    · cases h
      exact ⟨[], [], rfl, rfl, rfl⟩
  | cons c s ih =>
    rw [braceFault?] at h
    split at h
    · next hd =>
      obtain ⟨rfl, -⟩ := depthAfter?_eq_none_iff.1 hd
      cases h
      exact ⟨[], '}' :: s, rfl, rfl, s, by simp⟩
    · next e hd =>
      exact (ih h).within (u := [c]) (v := []) (by simp) (by simp) rfl

/-- A field that no comma outside braces divides can be cut into its parts. -/
theorem parts?_ne_none (h : Leads 0 s 0) : parts? s ≠ none := by
  intro hp
  unfold parts? at hp
  split at hp
  · cases hp
  · next c r hd =>
    obtain ⟨e, he⟩ := textDepth?_of_block?_eq_none (Option.map_eq_none_iff.1 hp)
    obtain ⟨hbrace, hs⟩ := eq_of_dropWhile_ne hd
    rw [hs] at h
    -- in front of the first brace the text is outside braces, behind it it stays within them
    obtain ⟨f, hname, hopen⟩ := leads_append.1 h
    obtain ⟨-, rfl⟩ := hname.plain hbrace
    obtain ⟨-, g, hg, hr⟩ := leads_cons.1 hopen
    cases hg
    rw [hr.textDepth?] at he
    cases he

theorem byteLength_block (s : List Char) :
    byteLength ('{' :: s ++ ['}']) = byteLength s + 2 := by
  rw [Text.byteLength_append]
  show 1 + byteLength s + 1 = byteLength s + 2
  omega

/-! ## Names and orders -/

/-- A fault in a name that starts with no blank is at its start. What is to follow an empty name
shows that it is missing. -/
theorem in_of_fieldName (h : fieldName position text = .error fault)
    (hstart : ∀ c s, text = c :: s → isBlank c = false)
    (hrest : text = [] → FaultKind.missingName.Shows rest) : fault.In position text rest := by
  refine ⟨[], text, rfl, ?_⟩
  rw [fieldName] at h
  split at h
  · next he =>
    cases h
    refine ⟨rfl, ?_⟩
    have hblank := Text.trim_eq_nil_iff.1 (List.isEmpty_iff.1 he)
    cases text with
    | nil => exact hrest rfl
    | cons c s => exact absurd (hblank c (.head s)) (by simp [hstart c s rfl])
  · split at h
    · next c hc =>
      cases h
      refine ⟨rfl, List.mem_of_find?_eq_some hc, ?_⟩
      obtain ⟨v, -, hv⟩ := Text.exists_takeWhile_append_trim text
      have hnone : text.takeWhile isBlank = [] := by
        cases text with
        | nil => rfl
        | cons d s => simp [hstart d s rfl]
      rw [hnone, List.nil_append] at hv
      exact ⟨v ++ rest, by rw [← List.append_assoc, ← hv]⟩
    · cases h

/-- A fault in an order is at the start of what is to be the order. -/
theorem in_of_fieldOrder (h : fieldOrder position text = .error fault) :
    fault.In position text rest := by
  refine ⟨[], text, rfl, ?_⟩
  rw [fieldOrder] at h
  split at h
  · cases h
  · next hne =>
    have hshows := Text.trim_prefix_trimStart_append (by simpa using hne) rest
    split at h
    · cases h
      exact ⟨rfl, hshows⟩
    · split at h
      · cases h
      · split at h
        · cases h
        · cases h
          exact ⟨rfl, hshows⟩

/-! ## Fields -/

theorem field_blank (h : trim text = []) :
    field position text =
      .error ⟨position + byteLength (text.takeWhile isBlank), .emptyField⟩ := by
  rw [field, if_pos (by simp [h])]

theorem in_of_field_blank (h : field position text = .error fault) (hblank : trim text = [])
    (hrest : FaultKind.emptyField.Shows rest) : fault.In position text rest := by
  rw [field_blank hblank] at h
  cases h
  have htext : text.takeWhile isBlank = text :=
    List.takeWhile_eq_self_iff.2 (Text.trim_eq_nil_iff.1 hblank)
  exact ⟨text, [], by simp, by rw [htext], by simpa using hrest⟩

/-- What follows the name of a field without a block is empty or starts with a point. -/
theorem missingName_shows_of_parts? (hp : parts? s = some ⟨[], none, suffix⟩) (hne : s ≠ []) :
    FaultKind.missingName.Shows (suffix ++ rest) := by
  obtain ⟨hbrace, hs⟩ := eq_of_parts?_plain hp
  rw [parts?_plain hbrace] at hp
  obtain ⟨hname, -, hsuffix⟩ : s.takeWhile (· ≠ '.') = [] ∧ True ∧ s.dropWhile (· ≠ '.') = suffix := by
    simpa using hp
  cases suffix with
  | nil => exact absurd hs hne
  | cons c r =>
    obtain ⟨-, hs'⟩ := eq_of_dropWhile_ne hsuffix
    rw [hname, List.nil_append] at hs'
    rw [List.nil_append] at hs
    exact ⟨r ++ rest, .inr (by rw [← List.cons_append, ← hs, hs', List.cons_append])⟩

theorem in_of_field_plain (h : field position text = .error fault) (hne : trim text ≠ [])
    (hp : parts? (trim text) = some ⟨name, none, suffix⟩) : fault.In position text rest := by
  obtain ⟨v, -, htext⟩ := Text.exists_takeWhile_append_trim text
  obtain ⟨-, hs⟩ := eq_of_parts?_plain hp
  rw [field_plain hne hp] at h
  rw [hs] at htext
  generalize text.takeWhile isBlank = u at h htext
  rcases bind_eq_error_iff.1 h with h | ⟨fname, -, h⟩
  · have hstart : ∀ c s, name = c :: s → isBlank c = false := by
      rintro c s rfl
      exact Text.not_blank_of_trim_eq_cons hs
    have hrest : name = [] → FaultKind.missingName.Shows (suffix ++ (v ++ rest)) := by
      rintro rfl
      exact missingName_shows_of_parts? hp hne
    have hpart : text = u ++ name ++ (suffix ++ v) := by simpa using htext
    exact (in_of_fieldName h hstart hrest).within hpart rfl (by simp)
  · rcases bind_eq_error_iff.1 h with h | ⟨order, -, h⟩
    · have hpart : text = u ++ name ++ suffix ++ v := by simpa using htext
      exact (in_of_fieldOrder h).within hpart (by simp [Nat.add_assoc]) rfl
    · cases h

/-- In a field with a block there may be faults of the selection in it. -/
theorem in_of_field_block (h : field position text = .error fault) (hne : trim text ≠ [])
    (hp : parts? (trim text) = some ⟨name, some inner, suffix⟩)
    (hinner : ∀ p rest, p = position + byteLength (text.takeWhile isBlank) + byteLength name + 1 →
      selection p inner = .error fault → FaultKind.emptyField.Shows rest →
      fault.In p inner rest) : fault.In position text rest := by
  obtain ⟨v, -, htext⟩ := Text.exists_takeWhile_append_trim text
  obtain ⟨hbrace, -, hs⟩ := parts?_block_iff.1 hp
  rw [field_block hne hp] at h
  rw [hs] at htext
  generalize text.takeWhile isBlank = u at h htext hinner
  rcases bind_eq_error_iff.1 h with h | ⟨children, -, h⟩
  · have hpart : text = u ++ name ++ ['{'] ++ inner ++ ('}' :: suffix ++ v) := by
      simpa using htext
    have hrest : FaultKind.emptyField.Shows ('}' :: suffix ++ v ++ rest) :=
      .inr ⟨suffix ++ v ++ rest, .inr (by simp)⟩
    exact (hinner _ _ rfl h hrest).within hpart
      (by simp only [Text.byteLength_append, Nat.add_assoc]; rfl) rfl
  rcases bind_eq_error_iff.1 h with h | ⟨fname, -, h⟩
  · have hpart : text = u ++ name ++ ('{' :: inner ++ '}' :: suffix ++ v) := by
      simpa using htext
    have hstart : ∀ c s, name = c :: s → isBlank c = false := by
      rintro c s rfl
      exact Text.not_blank_of_trim_eq_cons (by simpa using hs)
    have hrest : name = [] →
        FaultKind.missingName.Shows ('{' :: inner ++ '}' :: suffix ++ v ++ rest) :=
      fun _ => ⟨inner ++ '}' :: suffix ++ v ++ rest, .inl (by simp)⟩
    exact (in_of_fieldName h hstart hrest).within hpart rfl rfl
  rcases bind_eq_error_iff.1 h with h | ⟨order, -, h⟩
  · have hpart : text = u ++ name ++ ('{' :: inner ++ ['}']) ++ suffix ++ v := by
      simpa using htext
    have hstart : byteLength (u ++ name ++ ('{' :: inner ++ ['}'])) =
        byteLength u + byteLength name + (byteLength inner + 2) := by
      rw [Text.byteLength_append, Text.byteLength_append, byteLength_block]
    exact (in_of_fieldOrder h).within hpart (by rw [hstart]; omega) rfl
  · cases h

/-! ## Selections -/

theorem selection_eq_error_iff (hs : textDepth? 0 s = some 0) :
    selection position s = .error fault ↔ fields position (pieces s) = .error fault := by
  rw [selection, (braceFault?_eq_none_iff position).2 hs]

theorem fields_cons_eq_error_iff {p : List Char} {ps : List (List Char)} :
    fields position (p :: ps) = .error fault ↔ field position p = .error fault ∨
      fields (position + byteLength p + 1) ps = .error fault ∧ ∃ n, field position p = .ok n := by
  rw [fields, bind_eq_error_iff]
  refine or_congr_right ⟨fun h => ?_, fun h => ?_⟩
  · obtain ⟨n, hn, h⟩ := h
    rcases bind_eq_error_iff.1 h with h | ⟨ns, -, h⟩
    · exact ⟨h, n, hn⟩
    · cases h
  · obtain ⟨h, n, hn⟩ := h
    exact ⟨n, hn, bind_eq_error_iff.2 (.inl h)⟩

/-- The faults of the three readers are in what they read, if its braces are balanced and it is
followed by the end of a field. -/
theorem in_of_reading :
    (∀ position s fault rest, selection position s = .error fault → textDepth? 0 s = some 0 →
      FaultKind.emptyField.Shows rest → fault.In position s rest) ∧
    (∀ position ps fault rest, fields position ps = .error fault → (∀ p ∈ ps, Leads 0 p 0) →
      FaultKind.emptyField.Shows rest → fault.In position (joined ps) rest) ∧
    (∀ position text fault rest, field position text = .error fault → Leads 0 text 0 →
      FaultKind.emptyField.Shows rest → fault.In position text rest) := by
  have := selection.mutual_induct
    (fun position s => ∀ fault rest, selection position s = .error fault →
      textDepth? 0 s = some 0 → FaultKind.emptyField.Shows rest → fault.In position s rest)
    (fun position ps => ∀ fault rest, fields position ps = .error fault →
      (∀ p ∈ ps, Leads 0 p 0) → FaultKind.emptyField.Shows rest →
      fault.In position (joined ps) rest)
    (fun position text => ∀ fault rest, field position text = .error fault → Leads 0 text 0 →
      FaultKind.emptyField.Shows rest → fault.In position text rest)
  apply this
  · -- a fault of braces, which a balanced text does not have
    intro position s fault hf _ rest _ hs
    rw [(braceFault?_eq_none_iff position).2 hs] at hf
    cases hf
  · intro position s _ ih fault rest h hs hrest
    have := ih fault rest ((selection_eq_error_iff hs).1 h) (leads_pieces hs) hrest
    rwa [joined_pieces] at this
  · intro position fault rest h
    rw [fields] at h
    cases h
  · intro position p ps ihp ihps fault rest h hl hrest
    rw [List.forall_mem_cons] at hl
    rcases fields_cons_eq_error_iff.1 h with hp | ⟨hps, -⟩
    · cases ps with
      | nil => exact ihp fault rest hp hl.1 hrest
      | cons q qs =>
        have hcomma : FaultKind.emptyField.Shows (',' :: joined (q :: qs) ++ rest) :=
          .inr ⟨joined (q :: qs) ++ rest, .inl rfl⟩
        exact (ihp fault _ hp hl.1 hcomma).within (u := []) rfl (by simp) rfl
    · cases ps with
      | nil =>
        rw [fields] at hps
        cases hps
      | cons q qs =>
        exact (ihps fault rest hps hl.2 hrest).within (u := p ++ [',']) (v := [])
          (by simp [joined]) (by simp only [Text.byteLength_append]; rfl) rfl
  · intro position text hblank fault rest h _ hrest
    exact in_of_field_blank h (List.isEmpty_iff.1 hblank) hrest
  · -- a field that cannot be cut, which no text within balanced braces is
    intro position text _ hp fault rest _ hl
    exact absurd hp (parts?_ne_none (leads_trim.2 hl))
  · intro position text hne name suffix hp fault rest h _ _
    exact in_of_field_plain h (by simpa using hne) hp
  · intro position text start hne name inner suffix hp ih fault rest h _ _
    have hinner := (parts?_block_iff.1 hp).2.1
    refine in_of_field_block h (by simpa using hne) hp fun p rest hp h hrest => ?_
    subst hp
    exact ih fault rest h hinner hrest

/-- **Positions**: the position of a syntax error is that of a character of the selector or its end,
and the text from there on shows the fault. -/
theorem parse_fault_position {selector : String} (h : parse selector = .error fault) :
    ∃ before after : String, selector = before ++ after ∧ before.utf8ByteSize = fault.position ∧
      fault.kind.Shows after.toList := by
  have hin : fault.In 0 selector.toList [] := by
    cases hb : braceFault? 0 0 selector.toList with
    | some f =>
      rw [parse, selection, hb] at h
      cases h
      exact in_of_braceFault? hb
    | none =>
      exact in_of_reading.1 0 _ fault [] h ((braceFault?_eq_none_iff 0).1 hb) (.inl rfl)
  obtain ⟨before, after, hs, hpos, hshows⟩ := hin
  refine ⟨String.ofList before, String.ofList after, ?_, ?_, ?_⟩
  · rw [← String.ofList_append, ← hs, String.ofList_toList]
  · rw [← Text.byteLength_eq_utf8ByteSize, hpos, Nat.zero_add]
  · rwa [String.toList_ofList, ← List.append_nil after]

/-- In the block, behind a wide blank, a name has a blank in it. -/
def spaced : String := "é \x7bü,\u2003x y\x7d"

theorem parse_fault_position_spaced :
    parse spaced = .error ⟨10, .invalidCharacter ' ' "x y".toList⟩ ∧
      ∃ before after : String, spaced = before ++ after ∧ before.utf8ByteSize = 10 ∧
        (FaultKind.invalidCharacter ' ' "x y".toList).Shows after.toList := by
  have h : parse spaced = .error ⟨10, .invalidCharacter ' ' "x y".toList⟩ := by decide +kernel
  exact ⟨h, parse_fault_position h⟩

end Facet.Selector
