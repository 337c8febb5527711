import Facet.Proofs.Selector.Grammar

/-!
# Names and orders of fields

What the readers of the parts of a field accept: `fieldName` the names of the grammar
(`fieldName_eq_ok_iff`), `fieldOrder` its orders (`fieldOrder_eq_ok_iff`), wherever the part stands in
the selector.
-/

set_option autoImplicit false

namespace Facet.Selector

open Text (Blank isBlank trim trimStart trimEnd)

variable {s t text : List Char} {position : Nat} {name : String} {order : Option OrderDirective}

/-! ## Names -/

theorem isReserved_eq_false_iff {c : Char} :
    isReserved c = false ↔ c ∉ ['{', '}', '(', ')', ',', '.'] := by
  simp [isReserved, and_assoc]

theorem IsName.trim_toList (h : IsName name) : trim name.toList = name.toList :=
  Text.trim_eq_self fun c hc => (h.2 c hc).1

theorem IsName.exists_cons (h : IsName name) : ∃ c s, name.toList = c :: s ∧ isBlank c = false := by
  cases hs : name.toList with
  | nil => exact absurd (String.toList_eq_nil_iff.1 hs) h.1
  | cons c s => exact ⟨c, s, rfl, (h.2 c (by simp [hs])).1⟩

theorem fieldName_eq_ok_iff : fieldName position text = .ok name ↔
    IsName name ∧ ∃ u v, Blank u ∧ Blank v ∧ text = u ++ name.toList ++ v := by
  refine ⟨fun h => ?_, fun he => ?_⟩
  · rw [fieldName] at h
    split at h
    · cases h
    · next hne =>
      split at h
      · cases h
      · next hf =>
        obtain rfl : String.ofList (trim text) = name := Except.ok.inj h
        rw [IsName, String.toList_ofList]
        refine ⟨⟨fun he => hne ?_, fun c hc => ?_⟩, Text.exists_trim text⟩
        · rw [← String.toList_ofList (l := trim text), he]
          rfl
        · have := List.find?_eq_none.1 hf c hc
          rw [Bool.or_eq_true, not_or, Bool.not_eq_true, Bool.not_eq_true] at this
          exact ⟨this.1, isReserved_eq_false_iff.1 this.2⟩
  · obtain ⟨hn, u, v, hu, hv, rfl⟩ := he
    obtain ⟨c, s, hs, -⟩ := hn.exists_cons
    have hf : name.toList.find? (fun c => isBlank c || isReserved c) = none := by
      refine List.find?_eq_none.2 fun c hc => ?_
      obtain ⟨h₁, h₂⟩ := hn.2 c hc
      rw [h₁, isReserved_eq_false_iff.2 h₂]
      decide
    rw [fieldName, Text.trim_append hu hv, hn.trim_toList, if_neg (by simp [hs]), hf,
      String.ofList_toList]

theorem isName_of_fieldName (h : fieldName 0 name.toList = .ok name) : IsName name :=
  (fieldName_eq_ok_iff.1 h).1

/-! ## Orders -/

theorem afterWord?_eq_some_iff {word : List Char} :
    afterWord? word s = some t ↔ s = word ++ t := by
  unfold afterWord?
  split
  · next h =>
    obtain ⟨r, rfl⟩ := List.isPrefixOf_iff_prefix.1 h
    rw [List.drop_left, Option.some.injEq, List.append_cancel_left_eq]
  · next h =>
    simp only [reduceCtorEq, false_iff]
    intro he
    subst he
    exact h (List.isPrefixOf_iff_prefix.2 (List.prefix_append word t))

/-- Blanks may stand in front of a word that does not start with one. -/
theorem afterWord?_trimStart {c : Char} {word : List Char} (hc : isBlank c = false) :
    afterWord? (c :: word) (trimStart s) = some t ↔
      ∃ u, Blank u ∧ s = u ++ c :: word ++ t := by
  rw [afterWord?_eq_some_iff]
  refine ⟨fun h => ?_, fun he => ?_⟩
  · obtain ⟨u, hu, hs⟩ := Text.exists_trimStart s
    exact ⟨u, hu, by rw [hs, h, List.append_assoc]⟩
  · obtain ⟨u, hu, rfl⟩ := he
    rw [List.append_assoc, Text.trimStart_append hu, List.cons_append, Text.trimStart_cons hc]

theorem orderArguments?_eq_some_iff {arguments : List Char} :
    orderArguments? s = some arguments ↔ ∃ v w, Blank v ∧ Blank w ∧
      s = '.' :: v ++ "order".toList ++ w ++ '(' :: arguments := by
  have hword : "order".toList = ['o', 'r', 'd', 'e', 'r'] := rfl
  simp only [orderArguments?, Option.bind_eq_bind, Option.bind_eq_some_iff, hword,
    afterWord?_trimStart (show isBlank 'o' = false by decide),
    afterWord?_trimStart (show isBlank '(' = false by decide), afterWord?_eq_some_iff]
  refine ⟨fun h => ?_, fun h => ?_⟩
  · obtain ⟨a, rfl, b, ⟨v, hv, rfl⟩, w, hw, rfl⟩ := h
    exact ⟨v, w, hv, hw, by simp⟩
  · obtain ⟨v, w, hv, hw, rfl⟩ := h
    exact ⟨v ++ ['o', 'r', 'd', 'e', 'r'] ++ w ++ '(' :: arguments, by simp, w ++ '(' :: arguments,
      ⟨v, hv, by simp⟩, w, hw, by simp⟩

theorem atLastParen?_eq_none_iff : atLastParen? s = none ↔ ')' ∉ s := by
  induction s with
  | nil => simp [atLastParen?]
  | cons c s ih =>
    rw [atLastParen?, List.mem_cons, not_or, ← ih]
    cases atLastParen? s with
    | none => simp [eq_comm]
    | some r => simp

theorem eq_of_atLastParen? {before after : List Char}
    (h : atLastParen? s = some (before, after)) : s = before ++ ')' :: after := by
  induction s generalizing before with
  | nil => cases h
  | cons c s ih =>
    rw [atLastParen?] at h
    split at h
    · next b a hs =>
      cases h
      rw [ih hs, List.cons_append]
    · split at h
      · next hc => cases h; rw [hc, List.nil_append]
      · cases h

theorem atLastParen?_append (before : List Char) {after : List Char} (h : ')' ∉ after) :
    atLastParen? (before ++ ')' :: after) = some (before, after) := by
  induction before with
  | nil => simp [atLastParen?, atLastParen?_eq_none_iff.2 h]
  | cons c s ih => rw [List.cons_append, atLastParen?, ih]

/-- A directive depends on its token up to the blanks around it. -/
theorem ofToken_congr (h : trim s = trim t) :
    OrderDirective.ofToken (String.ofList s) = .ofToken (String.ofList t) := by
  simp only [OrderDirective.ofToken, Text.trimmed, String.toList_ofList, h]

theorem fieldOrder_congr (h : trim s = trim t) : fieldOrder position s = fieldOrder position t := by
  simp only [fieldOrder, h]

theorem isOrder_of_fieldOrder (h : fieldOrder position text = .ok order) :
    IsOrder (fun _ => True) text order := by
  obtain ⟨u, x, hu, hx, htext⟩ := Text.exists_trim text
  rw [fieldOrder] at h
  split at h
  · next he =>
    cases h
    exact .absent (Text.trim_eq_nil_iff.1 (List.isEmpty_iff.1 he))
  · split at h
    · cases h
    · next arguments ha =>
      obtain ⟨v, w, hv, hw, hs⟩ := orderArguments?_eq_some_iff.1 ha
      have hopens : OpensOrder (u ++ '.' :: v ++ "order".toList ++ w ++ ['(']) :=
        ⟨u, v, w, hu, hv, hw, rfl⟩
      rw [hs] at htext
      split at h
      · -- The token runs to the end of the text, blanks at its end included.
        next hp =>
        cases h
        have hclose : ')' ∉ arguments ++ x := by
          rw [List.mem_append, not_or]
          exact ⟨atLastParen?_eq_none_iff.1 hp, hx.not_mem (by decide)⟩
        have : IsOrder (fun _ => True) (_ ++ (arguments ++ x) ++ []) _ :=
          .order hopens trivial (.inl ⟨rfl, hclose⟩)
        rw [ofToken_congr (Text.trim_append_right hx)] at this
        simpa [htext] using this
      · next token after hp =>
        split at h
        · next he =>
          cases h
          have hafter : Blank (after ++ x) :=
            Text.blank_append.2 ⟨Text.trim_eq_nil_iff.1 (List.isEmpty_iff.1 he), hx⟩
          have : IsOrder (fun _ => True) (_ ++ token ++ ')' :: (after ++ x)) _ :=
            .order hopens trivial (.inr ⟨after ++ x, hafter, rfl⟩)
          rw [eq_of_atLastParen? hp] at htext
          simpa [htext] using this
        · cases h

/-- The text of an order between its blanks. -/
theorem trim_opensOrder {u v w : List Char} (hu : Blank u) :
    trim (u ++ '.' :: v ++ "order".toList ++ w ++ ['('] ++ s) =
      '.' :: v ++ "order".toList ++ w ++ '(' :: trimEnd s := by
  have h := Text.trim_cons_append_cons (s := v ++ "order".toList ++ w) (t := s)
    (show isBlank '.' = false by decide) (show isBlank '(' = false by decide)
  rw [← Text.trim_append_left hu] at h
  simpa using h

theorem fieldOrder_of_isOrder {Allowed : List Char → Prop} (h : IsOrder Allowed text order) :
    fieldOrder position text = .ok order := by
  rcases h with hs | @⟨_, token, _, ⟨u, v, w, hu, hv, hw, rfl⟩, -, hc⟩
  · rw [fieldOrder, Text.trim_eq_nil_iff.2 hs]
    rfl
  · have ha (a : List Char) :
        orderArguments? ('.' :: v ++ "order".toList ++ w ++ '(' :: a) = some a :=
      orderArguments?_eq_some_iff.2 ⟨v, w, hv, hw, rfl⟩
    rcases hc with ⟨rfl, hp⟩ | ⟨x, hx, rfl⟩
    · have hp' : ')' ∉ trimEnd token := fun hm =>
        hp ((List.rdropWhile_prefix isBlank token).subset hm)
      simp only [fieldOrder, List.append_nil, trim_opensOrder hu, ha,
        atLastParen?_eq_none_iff.2 hp', ofToken_congr (Text.trim_trimEnd token)]
      rfl
    · have ht : trimEnd (token ++ ')' :: x) = token ++ [')'] := by
        rw [Text.trimEnd_append_cons (by decide), Text.trimEnd_eq_nil_iff.2 hx]
      have hl : atLastParen? (token ++ [')']) = some (token, []) :=
        atLastParen?_append token List.not_mem_nil
      simp only [fieldOrder, List.append_assoc _ token, trim_opensOrder hu, ht, ha, hl]
      rfl

/-- The reader of orders accepts the orders of the grammar, with any token. -/
theorem fieldOrder_eq_ok_iff :
    fieldOrder position text = .ok order ↔ IsOrder (fun _ => True) text order :=
  ⟨isOrder_of_fieldOrder, fieldOrder_of_isOrder⟩

end Facet.Selector
