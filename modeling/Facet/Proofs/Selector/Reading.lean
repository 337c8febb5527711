import Facet.Proofs.Except
import Facet.Proofs.Selector.Parts

/-!
# Reading selectors

The reader accepts exactly the texts that the grammar derives, and with the derived nodes:
`isSelection_of_parse` is by induction on the calls of the reader, `parse_of_isSelection` by induction
on the derivation. Positions only matter to faults, so the statements are about all of them.
-/

set_option autoImplicit false

namespace Facet.Selector

open Text (Blank isBlank trim trimEnd byteLength)

variable {s t u v name inner suffix text : List Char} {position : Nat} {fname : String}
  {order : Option OrderDirective} {n : Node} {ns : List Node}

/-! ## One call of a reader -/

theorem selection_eq_ok_iff : selection position s = .ok ns ↔
    textDepth? 0 s = some 0 ∧ fields position (pieces s) = .ok ns := by
  rw [selection, ← braceFault?_eq_none_iff position]
  cases braceFault? 0 position s <;> simp

theorem fields_cons_eq_ok_iff {p : List Char} {ps : List (List Char)} :
    fields position (p :: ps) = .ok ns ↔ ∃ n ms, field position p = .ok n ∧
      fields (position + byteLength p + 1) ps = .ok ms ∧ n :: ms = ns := by
  simp only [fields, bind_eq_ok_iff, Except.ok.injEq]
  refine ⟨fun h => ?_, fun h => ?_⟩
  · obtain ⟨n, hn, ms, hms, h⟩ := h
    exact ⟨n, ms, hn, hms, h⟩
  · obtain ⟨n, ms, hn, hms, h⟩ := h
    exact ⟨n, hn, ms, hms, h⟩

/-! ## Cutting a field -/

theorem all_ne_of_not_mem {a : Char} (h : a ∉ s) : ∀ c ∈ s, decide (c ≠ a) = true := by
  intro c hc
  rw [decide_eq_true_iff]
  intro he
  subst he
  exact h hc

/-- A text whose first `a` is followed by `r`. -/
theorem eq_of_dropWhile_ne {a c : Char} {r : List Char} (h : s.dropWhile (· ≠ a) = c :: r) :
    a ∉ s.takeWhile (· ≠ a) ∧ s = s.takeWhile (· ≠ a) ++ a :: r := by
  obtain rfl : c = a := by
    have := List.head?_dropWhile_not (fun x : Char => decide (x ≠ a)) s
    rw [h] at this
    simpa using this
  refine ⟨fun hm => by simpa using List.mem_takeWhile_imp hm, ?_⟩
  conv_lhs => rw [← List.takeWhile_append_dropWhile (p := (· ≠ c)) (l := s), h]

theorem parts?_plain (h : '{' ∉ s) :
    parts? s = some ⟨s.takeWhile (· ≠ '.'), none, s.dropWhile (· ≠ '.')⟩ := by
  rw [parts?, List.dropWhile_eq_nil_iff.2 (all_ne_of_not_mem h)]

theorem eq_of_parts?_plain (h : parts? s = some ⟨name, none, suffix⟩) :
    '{' ∉ s ∧ s = name ++ suffix := by
  unfold parts? at h
  split at h
  · next hd =>
    cases h
    refine ⟨fun hm => ?_, List.takeWhile_append_dropWhile.symm⟩
    exact absurd (List.dropWhile_eq_nil_iff.1 hd _ hm) (by decide)
  · simp at h

/-- A field is cut at its first block. -/
theorem parts?_block_iff : parts? s = some ⟨name, some inner, suffix⟩ ↔
    '{' ∉ name ∧ textDepth? 0 inner = some 0 ∧ s = name ++ '{' :: inner ++ '}' :: suffix := by
  constructor
  · intro h
    unfold parts? at h
    split at h
    · cases h
    · next c r hd =>
      obtain ⟨⟨i, x⟩, hb, he⟩ := Option.map_eq_some_iff.1 h
      cases he
      obtain ⟨rfl, hi⟩ := block?_eq_some_iff.1 hb
      obtain ⟨hbrace, hs⟩ := eq_of_dropWhile_ne hd
      exact ⟨hbrace, hi, by simpa using hs⟩
  · rintro ⟨hn, hi, rfl⟩
    have h := all_ne_of_not_mem hn
    rw [parts?, List.append_assoc, List.dropWhile_append_of_pos h, List.takeWhile_append_of_pos h]
    simp [block?_eq_some_iff.2 ⟨rfl, hi⟩]

/-! ## Fields -/

theorem field_plain (hne : trim text ≠ [])
    (hp : parts? (trim text) = some ⟨name, none, suffix⟩) :
    field position text = (do
      let start := position + byteLength (text.takeWhile isBlank)
      let fname ← fieldName start name
      let order ← fieldOrder (start + byteLength name) suffix
      .ok ⟨fname, none, order⟩) := by
  rw [field, if_neg (by simpa using hne)]
  split
  · next h => cases hp.symm.trans h
  · next h => cases hp.symm.trans h; rfl
  · next h => cases hp.symm.trans h

theorem field_block (hne : trim text ≠ [])
    (hp : parts? (trim text) = some ⟨name, some inner, suffix⟩) :
    field position text = (do
      let start := position + byteLength (text.takeWhile isBlank)
      let children ← selection (start + byteLength name + 1) inner
      let fname ← fieldName start name
      let order ← fieldOrder (start + byteLength name + byteLength inner + 2) suffix
      .ok ⟨fname, some children, order⟩) := by
  rw [field, if_neg (by simpa using hne)]
  split
  · next h => cases hp.symm.trans h
  · next h => cases hp.symm.trans h
  · next h => cases hp.symm.trans h; rfl

/-! ## What is read is derived -/

theorem isField_of_plain {p q : Nat} (hl : Leads 0 text 0)
    (hp : parts? (trim text) = some ⟨name, none, suffix⟩) (hn : fieldName p name = .ok fname)
    (ho : fieldOrder q suffix = .ok order) : IsField text ⟨fname, none, order⟩ := by
  obtain ⟨u, x, hu, hx, htext⟩ := Text.exists_trim text
  obtain ⟨hbrace, hs⟩ := eq_of_parts?_plain hp
  obtain ⟨hname, v, w, hv, hw, rfl⟩ := fieldName_eq_ok_iff.1 hn
  have hplain : Plain text := by
    refine (hl.plain fun hm => ?_).1
    rw [htext, List.mem_append, List.mem_append] at hm
    rcases hm with (hm | hm) | hm
    · exact hu.not_mem (by decide) hm
    · exact hbrace hm
    · exact hx.not_mem (by decide) hm
  obtain rfl : text = u ++ v ++ fname.toList ++ w ++ (suffix ++ x) := by
    rw [htext, hs]
    simp
  rw [fieldOrder_congr (Text.trim_append_right hx).symm, fieldOrder_eq_ok_iff] at ho
  exact .plain (Text.blank_append.2 ⟨hu, hv⟩) hname hw
    (isOrder_plain_iff.2 ⟨ho, (plain_append.1 hplain).2⟩)

theorem isField_of_block {p q : Nat} (hl : Leads 0 text 0)
    (hp : parts? (trim text) = some ⟨name, some inner, suffix⟩) (hi : IsSelection inner ns)
    (hn : fieldName p name = .ok fname) (ho : fieldOrder q suffix = .ok order) :
    IsField text ⟨fname, some ns, order⟩ := by
  obtain ⟨u, x, hu, hx, htext⟩ := Text.exists_trim text
  obtain ⟨hname, v, w, hv, hw, rfl⟩ := fieldName_eq_ok_iff.1 hn
  have huv : Blank (u ++ v) := Text.blank_append.2 ⟨hu, hv⟩
  obtain rfl : text = u ++ v ++ fname.toList ++ w ++ '{' :: inner ++ '}' :: (suffix ++ x) := by
    rw [htext, (parts?_block_iff.1 hp).2.2]
    simp
  have hs : Leads 0 (suffix ++ x) 0 := by
    rw [← leads_append_left (leads_block hi.balanced),
      ← leads_append_left ((hname.plain_padded huv hw).leads 0)]
    simpa using hl
  rw [fieldOrder_congr (Text.trim_append_right hx).symm, fieldOrder_eq_ok_iff] at ho
  exact .block huv hname hw hi (isOrder_enclosed_iff.2 ⟨ho, hs⟩)

theorem isSelection_joined {p : List Char} {ps : List (List Char)} (hp : IsField p n)
    (hps : ps ≠ [] → IsSelection (joined ps) ns) (hnil : ps = [] → ns = []) :
    IsSelection (joined (p :: ps)) (n :: ns) := by
  cases ps with
  | nil => obtain rfl := hnil rfl; exact .last hp
  | cons q qs => exact .more hp (hps (List.cons_ne_nil q qs))

/-- What the three readers read is derived. Of fields that holds between commas outside braces. -/
theorem reading_sound :
    (∀ position s ns, selection position s = .ok ns → IsSelection s ns) ∧
    (∀ position ps ns, fields position ps = .ok ns → ps ≠ [] → (∀ p ∈ ps, Leads 0 p 0) →
      IsSelection (joined ps) ns) ∧
    (∀ position text n, field position text = .ok n → Leads 0 text 0 → IsField text n) := by
  have := selection.mutual_induct
    (fun position s => ∀ ns, selection position s = .ok ns → IsSelection s ns)
    (fun position ps => ∀ ns, fields position ps = .ok ns → ps ≠ [] → (∀ p ∈ ps, Leads 0 p 0) →
      IsSelection (joined ps) ns)
    (fun position text => ∀ n, field position text = .ok n → Leads 0 text 0 → IsField text n)
  apply this
  · -- unbalanced
    intro position s fault hf ns h
    have hb := (selection_eq_ok_iff.1 h).1
    rw [← braceFault?_eq_none_iff position, hf] at hb
    cases hb
  · intro position s _ ih ns h
    obtain ⟨hb, hf⟩ := selection_eq_ok_iff.1 h
    have := ih ns hf (List.cons_ne_nil _ _) (leads_pieces hb)
    rwa [joined_pieces] at this
  · intro position ns _ hne
    exact absurd rfl hne
  · intro position p ps ihp ihps ns h _ hl
    obtain ⟨n, ms, hp, hps, rfl⟩ := fields_cons_eq_ok_iff.1 h
    refine isSelection_joined (ihp n hp (hl p (by simp)))
      (fun hne => ihps ms hps hne fun q hq => hl q (by simp [hq])) fun he => ?_
    subst he
    rw [fields] at hps
    cases hps
    rfl
  · intro position text he n h
    rw [field, if_pos he] at h
    cases h
  · intro position text hne hp n h
    rw [field, if_neg hne] at h
    split at h
    · cases h
    · next hp' => cases hp.symm.trans hp'
    · next hp' => cases hp.symm.trans hp'
  · intro position text hne name suffix hp n h hl
    rw [field_plain (by simpa using hne) hp] at h
    obtain ⟨fname, hn, h⟩ := bind_eq_ok_iff.1 h
    obtain ⟨order, ho, h⟩ := bind_eq_ok_iff.1 h
    obtain rfl := Except.ok.inj h
    exact isField_of_plain hl hp hn ho
  · intro position text start hne name inner suffix hp ih n h hl
    rw [field_block (by simpa using hne) hp] at h
    obtain ⟨children, hi, h⟩ := bind_eq_ok_iff.1 h
    obtain ⟨fname, hn, h⟩ := bind_eq_ok_iff.1 h
    obtain ⟨order, ho, h⟩ := bind_eq_ok_iff.1 h
    obtain rfl := Except.ok.inj h
    exact isField_of_block hl hp (ih children hi) hn ho

/-- The nodes of an accepted selector are those of a derivation. -/
theorem isSelection_of_parse {selector : String} (h : parse selector = .ok ns) :
    IsSelection selector.toList ns := reading_sound.1 0 selector.toList ns h

/-! ## What is derived is read -/

theorem IsName.trim_append (h : IsName fname) (hu : Blank u) {c : Char} (hc : isBlank c = false) :
    trim (u ++ fname.toList ++ v ++ c :: s) = fname.toList ++ v ++ c :: trimEnd s := by
  obtain ⟨d, r, hr, hd⟩ := h.exists_cons
  have := Text.trim_cons_append_cons (s := r ++ v) (t := s) hd hc
  rw [← Text.trim_append_left hu] at this
  simpa [hr] using this

theorem IsOrder.blank_or_point {Allowed : List Char → Prop} (h : IsOrder Allowed s order) :
    Blank s ∨ ∃ u t, Blank u ∧ s = u ++ '.' :: t := by
  rcases h with hs | @⟨_, token, x, ⟨u, v, w, hu, -, -, rfl⟩, -, -⟩
  · exact .inl hs
  · exact .inr ⟨u, v ++ "order".toList ++ w ++ '(' :: (token ++ x), hu, by simp⟩

/-- No point stands in a name or in the blanks behind it. -/
theorem IsName.all_ne_point (h : IsName fname) (hv : Blank v) :
    ∀ c ∈ fname.toList ++ v, decide (c ≠ '.') = true := by
  refine all_ne_of_not_mem ?_
  rw [List.mem_append, not_or]
  exact ⟨h.not_reserved (by decide), hv.not_mem (by decide)⟩

/-- A plain field, trimmed, is its name and its order, blanks between them going with the name. -/
theorem IsName.exists_parts (hn : IsName fname) (hu : Blank u) (hv : Blank v)
    (ho : IsOrder Plain s order) : ∃ w r, Blank w ∧ trim r = trim s ∧
      trim (u ++ fname.toList ++ v ++ s) ≠ [] ∧
      parts? (trim (u ++ fname.toList ++ v ++ s)) = some ⟨fname.toList ++ w, none, r⟩ := by
  have hplain : Plain (u ++ fname.toList ++ v ++ s) :=
    plain_append.2 ⟨hn.plain_padded hu hv, (isOrder_plain_iff.1 ho).2⟩
  have hp := parts?_plain fun hm => hplain.1 (Text.trim_subset _ hm)
  rcases ho.blank_or_point with hs | ⟨x, r, hx, rfl⟩
  · have htrim : trim (u ++ fname.toList ++ v ++ s) = fname.toList := by
      rw [List.append_assoc, Text.trim_append hu (Text.blank_append.2 ⟨hv, hs⟩), hn.trim_toList]
    obtain ⟨c, _, hc, -⟩ := hn.exists_cons
    have hpoint := hn.all_ne_point Text.blank_nil
    rw [List.append_nil] at hpoint
    refine ⟨[], [], Text.blank_nil, (Text.trim_eq_nil_iff.2 hs).symm, by rw [htrim]; simp [hc], ?_⟩
    rw [hp, htrim, List.takeWhile_eq_self_iff.2 hpoint, List.dropWhile_eq_nil_iff.2 hpoint,
      List.append_nil]
  · have htrim : trim (u ++ fname.toList ++ v ++ (x ++ '.' :: r)) =
        fname.toList ++ (v ++ x) ++ '.' :: trimEnd r := by
      rw [← hn.trim_append hu (by decide)]
      simp
    have hpoint := hn.all_ne_point (Text.blank_append.2 ⟨hv, hx⟩)
    have hr : '.' :: trimEnd r = trimEnd ('.' :: r) :=
      (Text.trimEnd_append_cons (s := []) (by decide)).symm
    refine ⟨v ++ x, '.' :: trimEnd r, Text.blank_append.2 ⟨hv, hx⟩, ?_, by rw [htrim]; simp, ?_⟩
    · rw [hr, Text.trim_trimEnd, Text.trim_append_left hx]
    · rw [hp, htrim, List.takeWhile_append_of_pos hpoint, List.dropWhile_append_of_pos hpoint]
      simp

theorem IsName.fieldName_append (h : IsName fname) (hv : Blank v) :
    fieldName position (fname.toList ++ v) = .ok fname :=
  fieldName_eq_ok_iff.2 ⟨h, [], v, Text.blank_nil, hv, rfl⟩

theorem field_eq_ok_plain (hu : Blank u) (hn : IsName fname) (hv : Blank v)
    (ho : IsOrder Plain s order) :
    field position (u ++ fname.toList ++ v ++ s) = .ok ⟨fname, none, order⟩ := by
  obtain ⟨w, r, hw, hr, hne, hp⟩ := hn.exists_parts hu hv ho
  have horder (p : Nat) : fieldOrder p r = .ok order := by
    rw [fieldOrder_congr hr]
    exact fieldOrder_of_isOrder ho
  rw [field_plain hne hp]
  simp only [hn.fieldName_append hw, horder, bind, Except.bind]

theorem field_eq_ok_block (hu : Blank u) (hn : IsName fname) (hv : Blank v)
    (hb : textDepth? 0 t = some 0) (ht : ∀ p, selection p t = .ok ns)
    (ho : IsOrder Enclosed s order) :
    field position (u ++ fname.toList ++ v ++ '{' :: t ++ '}' :: s) =
      .ok ⟨fname, some ns, order⟩ := by
  have hbrace : '{' ∉ fname.toList ++ v := (hn.plain_padded Text.blank_nil hv).1
  have htrim := hn.trim_append (v := v ++ '{' :: t) (s := s) hu (show isBlank '}' = false by decide)
  simp only [← List.append_assoc] at htrim
  have hp := parts?_block_iff.2 ⟨hbrace, hb, htrim⟩
  have horder (p : Nat) : fieldOrder p (trimEnd s) = .ok order := by
    rw [fieldOrder_congr (Text.trim_trimEnd s)]
    exact fieldOrder_of_isOrder ho
  rw [field_block (by rw [htrim]; simp) hp]
  simp only [ht, hn.fieldName_append hv, horder, bind, Except.bind]

mutual

/-- A selection that the grammar derives is read as its nodes. -/
theorem selection_eq_ok {s : List Char} {ns : List Node} (position : Nat) :
    IsSelection s ns → selection position s = .ok ns
  | .last h => by
    rw [selection_eq_ok_iff, pieces_of_leads h.leads, fields_cons_eq_ok_iff]
    refine ⟨h.leads.textDepth?, _, _, field_eq_ok position h, ?_, rfl⟩
    rw [fields]
  | @IsSelection.more s t n ns h hs => by
    have ht := (selection_eq_ok_iff.1 (selection_eq_ok (position + byteLength s + 1) hs)).2
    rw [selection_eq_ok_iff, pieces_append h.leads, fields_cons_eq_ok_iff]
    exact ⟨(IsSelection.more h hs).balanced, _, _, field_eq_ok position h, ht, rfl⟩

/-- A field that the grammar derives is read as its node. -/
theorem field_eq_ok {s : List Char} {n : Node} (position : Nat) :
    IsField s n → field position s = .ok n
  | .plain hu hn hv ho => field_eq_ok_plain hu hn hv ho
  | .block hu hn hv ht ho =>
    field_eq_ok_block hu hn hv ht.balanced (fun p => selection_eq_ok p ht) ho

end

/-- A selector that the grammar derives is accepted, with the nodes of the derivation. -/
theorem parse_of_isSelection {selector : String} (h : IsSelection selector.toList ns) :
    parse selector = .ok ns := selection_eq_ok 0 h

end Facet.Selector
