import Facet.Selector.Parser
import Mathlib.Data.List.Infix

/-!
# Depths of braces

A text `Leads` from one depth of open braces to another if every closing brace in it has a partner
and no comma stands outside braces: such texts are what the scan for commas leaves whole.
`pieces_append` cuts a text behind one, and every piece of a balanced text is one (`leads_pieces`).
`Enclosed` says the same of a text in itself by counting its braces (`enclosed_iff_leads`).
-/

set_option autoImplicit false

namespace Facet.Selector

variable {c : Char} {s t : List Char} {d e f : Nat}

/-! ## One character -/

theorem depthAfter?_eq_some_iff : depthAfter? d c = some e ↔
    (c = '{' ∧ e = d + 1) ∨ (c = '}' ∧ d = e + 1) ∨ (c ≠ '{' ∧ c ≠ '}' ∧ e = d) := by
  unfold depthAfter?
  split
  · next h => subst h; simp [eq_comm]
  · next h =>
    split
    · next h' =>
      subst h'
      split <;> simp <;> omega
    · next h' => simp [h, h', eq_comm]

theorem depthAfter?_eq_none_iff : depthAfter? d c = none ↔ c = '}' ∧ d = 0 := by
  unfold depthAfter?
  split
  · next h => subst h; simp
  · split <;> simp_all

theorem textDepth?_cons :
    textDepth? d (c :: s) = some e ↔ ∃ f, depthAfter? d c = some f ∧ textDepth? f s = some e := by
  rw [textDepth?]
  exact Option.bind_eq_some_iff

theorem textDepth?_append (h : textDepth? d s = some e) :
    textDepth? d (s ++ t) = textDepth? e t := by
  induction s generalizing d with
  | nil => cases h; rfl
  | cons c s ih =>
    obtain ⟨f, hd, h⟩ := textDepth?_cons.1 h
    rw [List.cons_append, textDepth?, hd]
    exact ih h

/-! ## Texts without commas outside braces -/

/-- The text leads from one depth of open braces to another, with no comma outside braces. -/
inductive Leads : Nat → List Char → Nat → Prop
  | nil (d : Nat) : Leads d [] d
  | cons {c : Char} {s : List Char} {d e f : Nat} :
      (c = ',' → d ≠ 0) → depthAfter? d c = some e → Leads e s f → Leads d (c :: s) f

theorem leads_cons : Leads d (c :: s) f ↔
    (c = ',' → d ≠ 0) ∧ ∃ e, depthAfter? d c = some e ∧ Leads e s f :=
  ⟨fun h => by cases h with | cons hc hd h => exact ⟨hc, _, hd, h⟩,
    fun ⟨hc, _, hd, h⟩ => .cons hc hd h⟩

theorem leads_append : Leads d (s ++ t) f ↔ ∃ e, Leads d s e ∧ Leads e t f := by
  induction s generalizing d with
  | nil => exact ⟨fun h => ⟨d, .nil d, h⟩, fun ⟨_, hs, ht⟩ => by cases hs; exact ht⟩
  | cons c s ih =>
    simp only [List.cons_append, leads_cons, ih]
    refine ⟨fun he => ?_, fun he => ?_⟩
    · obtain ⟨hc, a, hd, e, hs, ht⟩ := he
      exact ⟨e, ⟨hc, a, hd, hs⟩, ht⟩
    · obtain ⟨e, ⟨hc, a, hd, hs⟩, ht⟩ := he
      exact ⟨hc, a, hd, e, hs, ht⟩

theorem Leads.append (hs : Leads d s e) (ht : Leads e t f) : Leads d (s ++ t) f :=
  leads_append.2 ⟨e, hs, ht⟩

theorem Leads.textDepth? (h : Leads d s e) : textDepth? d s = some e := by
  induction h with
  | nil => rfl
  | cons _ hd _ ih => exact textDepth?_cons.2 ⟨_, hd, ih⟩

theorem Leads.unique (h : Leads d s e) (h' : Leads d s f) : e = f :=
  Option.some.inj (h.textDepth?.symm.trans h'.textDepth?)

theorem leads_append_left (hs : Leads d s e) : Leads d (s ++ t) f ↔ Leads e t f := by
  refine ⟨fun h => ?_, hs.append⟩
  obtain ⟨e', hs', ht⟩ := leads_append.1 h
  rwa [hs.unique hs']

/-- In open braces commas do not count. -/
theorem leads_succ (h : textDepth? d s = some e) : Leads (d + 1) s (e + 1) := by
  induction s generalizing d with
  | nil => cases h; exact .nil _
  | cons c s ih =>
    obtain ⟨f, hd, h⟩ := textDepth?_cons.1 h
    refine .cons (fun _ => Nat.succ_ne_zero d) (depthAfter?_eq_some_iff.2 ?_) (ih h)
    rcases depthAfter?_eq_some_iff.1 hd with h | h | h
    · exact .inl ⟨h.1, by omega⟩
    · exact .inr (.inl ⟨h.1, by omega⟩)
    · exact .inr (.inr ⟨h.1, h.2.1, by omega⟩)

/-- A block stays at its depth. -/
theorem leads_block (h : textDepth? 0 s = some 0) : Leads 0 ('{' :: s ++ ['}']) 0 :=
  .cons (by decide) rfl ((leads_succ h).append (.cons (by decide) rfl (.nil 0)))

/-! ## Texts without braces -/

/-- None of the characters that the scan for commas looks at. -/
def Plain (s : List Char) : Prop := '{' ∉ s ∧ '}' ∉ s ∧ ',' ∉ s

theorem plain_append : Plain (s ++ t) ↔ Plain s ∧ Plain t := by
  simp only [Plain, List.mem_append, not_or]
  tauto

theorem plain_cons : Plain (c :: s) ↔ (c ≠ '{' ∧ c ≠ '}' ∧ c ≠ ',') ∧ Plain s := by
  simp only [Plain, List.mem_cons, not_or, eq_comm]
  tauto

theorem Plain.leads (h : Plain s) (d : Nat) : Leads d s d := by
  induction s with
  | nil => exact .nil d
  | cons c s ih =>
    obtain ⟨⟨h₁, h₂, h₃⟩, hs⟩ := plain_cons.1 h
    exact .cons (fun hc => absurd hc h₃) (depthAfter?_eq_some_iff.2 (.inr (.inr ⟨h₁, h₂, rfl⟩)))
      (ih hs)

/-- Plain texts on both sides make no difference. -/
theorem leads_between {u v : List Char} (hu : Plain u) (hv : Plain v) :
    Leads d (u ++ s ++ v) e ↔ Leads d s e := by
  rw [List.append_assoc, leads_append_left (hu.leads d)]
  refine ⟨fun h => ?_, fun h => ?_⟩
  · obtain ⟨f, hs, h⟩ := leads_append.1 h
    obtain rfl := h.unique (hv.leads f)
    exact hs
  · exact h.append (hv.leads e)

/-- A text without opening braces can only stay outside braces if it is plain. -/
theorem Leads.plain (h : Leads 0 s e) (hs : '{' ∉ s) : Plain s ∧ e = 0 := by
  induction s with
  | nil => cases h; exact ⟨by simp [Plain], rfl⟩
  | cons c s ih =>
    obtain ⟨hc, f, hd, h⟩ := leads_cons.1 h
    rw [List.mem_cons, not_or] at hs
    rcases depthAfter?_eq_some_iff.1 hd with ⟨h₁, -⟩ | ⟨-, h₁⟩ | ⟨h₁, h₂, rfl⟩
    · exact absurd h₁.symm hs.1
    · exact absurd h₁ (by omega)
    · obtain ⟨hp, he⟩ := ih h hs.2
      exact ⟨plain_cons.2 ⟨⟨h₁, h₂, fun hc' => hc hc' rfl⟩, hp⟩, he⟩

/-! ## Pieces -/

theorem cut_append (h : Leads d s e) : cut d (s ++ t) = (s ++ (cut e t).1, (cut e t).2) := by
  induction h with
  | nil => rfl
  | @cons c s d e f hc hd _ ih =>
    rw [List.cons_append, cut, if_neg fun h => hc h.1 h.2, hd, Option.getD_some, ih]
    rfl

theorem pieces_of_leads (h : Leads 0 s e) : pieces s = [s] := by
  have := cut_append (t := []) h
  rw [List.append_nil] at this
  simp [pieces, this, cut]

theorem pieces_append (h : Leads 0 s 0) (t : List Char) :
    pieces (s ++ ',' :: t) = s :: pieces t := by
  simp [pieces, cut_append h, cut]

theorem leads_cut (h : textDepth? d s = some 0) :
    Leads d (cut d s).1 0 ∧ ∀ p ∈ (cut d s).2, Leads 0 p 0 := by
  induction s generalizing d with
  | nil => cases h; exact ⟨.nil 0, by simp [cut]⟩
  | cons c s ih =>
    obtain ⟨e, hd, h⟩ := textDepth?_cons.1 h
    rw [cut]
    split
    · next hc =>
      obtain ⟨rfl, rfl⟩ := hc
      cases hd
      obtain ⟨h₁, h₂⟩ := ih h
      refine ⟨.nil 0, fun p hp => ?_⟩
      rcases List.mem_cons.1 hp with rfl | hp
      · exact h₁
      · exact h₂ p hp
    · next hc =>
      rw [hd, Option.getD_some]
      exact ⟨.cons (fun h₁ h₂ => hc ⟨h₁, h₂⟩) hd (ih h).1, (ih h).2⟩

/-- The pieces of a balanced text are what no comma outside braces divides. -/
theorem leads_pieces (h : textDepth? 0 s = some 0) : ∀ p ∈ pieces s, Leads 0 p 0 := by
  obtain ⟨h₁, h₂⟩ := leads_cut h
  intro p hp
  rcases List.mem_cons.1 hp with rfl | hp
  · exact h₁
  · exact h₂ p hp

/-- The pieces of a text with commas between them. -/
def joined : List (List Char) → List Char
  | [] => []
  | [p] => p
  | p :: q :: ps => p ++ ',' :: joined (q :: ps)

theorem joined_cut (d : Nat) (s : List Char) : joined ((cut d s).1 :: (cut d s).2) = s := by
  induction s generalizing d with
  | nil => rfl
  | cons c s ih =>
    rw [cut]
    split
    · next hc => rw [joined, ih 0, hc.1]; rfl
    · have := ih ((depthAfter? d c).getD d)
      revert this
      generalize cut ((depthAfter? d c).getD d) s = r
      rcases r with ⟨p, _ | ⟨q, ps⟩⟩ <;> simp [joined]

/-- Cutting at commas loses nothing. -/
theorem joined_pieces (s : List Char) : joined (pieces s) = s := joined_cut 0 s

/-! ## Blocks -/

theorem braceFault?_eq_none_iff (position : Nat) :
    braceFault? d position s = none ↔ textDepth? d s = some 0 := by
  induction s generalizing d position with
  | nil => simp [braceFault?, Selector.textDepth?]
  | cons c s ih =>
    rw [braceFault?, textDepth?_cons]
    cases h : depthAfter? d c with
    | none => simp
    | some e => simp [ih]

/-- A block ends at the first brace that nothing in it opened. -/
theorem block?_eq_some_iff {inner rest : List Char} :
    block? d s = some (inner, rest) ↔ s = inner ++ '}' :: rest ∧ textDepth? d inner = some 0 := by
  induction s generalizing d inner with
  | nil => simp [block?]
  | cons c s ih =>
    rw [block?]
    cases h : depthAfter? d c with
    | none =>
      obtain ⟨rfl, rfl⟩ := depthAfter?_eq_none_iff.1 h
      cases inner with
      | nil => simp [Selector.textDepth?]
      | cons c' inner =>
        simp only [textDepth?_cons, List.cons_append, List.cons.injEq]
        constructor
        · intro he; cases he
        · intro he
          obtain ⟨⟨rfl, -⟩, e, he, -⟩ := he
          rw [h] at he
          cases he
    | some e =>
      cases inner with
      | nil =>
        simp only [Option.map_eq_some_iff, Prod.mk.injEq, reduceCtorEq, false_and, and_false,
          exists_false, false_iff, List.nil_append, List.cons.injEq]
        intro he
        obtain ⟨⟨rfl, -⟩, hd⟩ := he
        cases hd
        cases h
      | cons c' inner =>
        simp only [Option.map_eq_some_iff, Prod.mk.injEq, textDepth?_cons, List.cons_append,
          List.cons.injEq]
        refine ⟨fun he => ?_, fun he => ?_⟩
        · obtain ⟨⟨i, r⟩, hb, ⟨rfl, rfl⟩, rfl⟩ := he
          obtain ⟨rfl, hd⟩ := ih.1 hb
          exact ⟨⟨rfl, rfl⟩, e, h, hd⟩
        · obtain ⟨⟨rfl, rfl⟩, e', he, hd⟩ := he
          rw [h] at he
          cases he
          exact ⟨(inner, rest), ih.2 ⟨rfl, hd⟩, ⟨rfl, rfl⟩, rfl⟩

/-- A text that does not close an open block leaves it open. -/
theorem textDepth?_of_block?_eq_none (h : block? d s = none) :
    ∃ e, textDepth? (d + 1) s = some (e + 1) := by
  induction s generalizing d with
  | nil => exact ⟨d, rfl⟩
  | cons c s ih =>
    rw [block?] at h
    cases hd : depthAfter? d c with
    | none =>
      rw [hd] at h
      cases h
    | some f =>
      rw [hd] at h
      obtain ⟨e, he⟩ := ih (Option.map_eq_none_iff.1 h)
      refine ⟨e, textDepth?_cons.2 ⟨f + 1, depthAfter?_eq_some_iff.2 ?_, he⟩⟩
      rcases depthAfter?_eq_some_iff.1 hd with ⟨hc, hf⟩ | ⟨hc, hf⟩ | ⟨hc, hc', hf⟩
      · exact .inl ⟨hc, by omega⟩
      · exact .inr (.inl ⟨hc, by omega⟩)
      · exact .inr (.inr ⟨hc, hc', by omega⟩)

/-! ## Counting braces -/

/-- The braces of the text are balanced and no comma in it stands outside them. -/
structure Enclosed (s : List Char) : Prop where
  prefixes : ∀ p, p <+: s → p.count '}' ≤ p.count '{'
  total : s.count '{' = s.count '}'
  commas : ∀ p, p ++ [','] <+: s → p.count '{' ≠ p.count '}'

theorem count_of_depthAfter? (h : depthAfter? d c = some e) (p : List Char) :
    d + (c :: p).count '{' + p.count '}' = e + p.count '{' + (c :: p).count '}' := by
  rcases depthAfter?_eq_some_iff.1 h with ⟨rfl, rfl⟩ | ⟨rfl, rfl⟩ | ⟨h₁, h₂, rfl⟩
  · rw [List.count_cons_self, List.count_cons_of_ne (by decide)]
    omega
  · rw [List.count_cons_self, List.count_cons_of_ne (by decide)]
    omega
  · rw [List.count_cons_of_ne h₁, List.count_cons_of_ne h₂]

theorem Leads.count (h : Leads d s e) :
    (∀ p, p <+: s → p.count '}' ≤ d + p.count '{') ∧ d + s.count '{' = e + s.count '}' ∧
      ∀ p, p ++ [','] <+: s → d + p.count '{' ≠ p.count '}' := by
  induction h with
  | nil d => simp
  | @cons c s d e f hc hd _ ih =>
    obtain ⟨ih₁, ih₂, ih₃⟩ := ih
    have hs := count_of_depthAfter? hd s
    refine ⟨fun p hp => ?_, by omega, fun p hp => ?_⟩
    · rcases List.prefix_cons_iff.1 hp with rfl | ⟨q, rfl, hq⟩
      · exact Nat.zero_le _
      · have := count_of_depthAfter? hd q
        have := ih₁ q hq
        omega
    · cases p with
      | nil =>
        have := hc (List.cons_prefix_cons.1 hp).1.symm
        simpa using this
      | cons c' q =>
        obtain ⟨rfl, hq⟩ := List.cons_prefix_cons.1 hp
        have := count_of_depthAfter? hd q
        have := ih₃ q hq
        omega

theorem leads_of_count (h₁ : ∀ p, p <+: s → p.count '}' ≤ d + p.count '{')
    (h₂ : d + s.count '{' = e + s.count '}')
    (h₃ : ∀ p, p ++ [','] <+: s → d + p.count '{' ≠ p.count '}') : Leads d s e := by
  induction s generalizing d with
  | nil =>
    obtain rfl : d = e := by simpa using h₂
    exact .nil d
  | cons c s ih =>
    cases hd : depthAfter? d c with
    | none =>
      obtain ⟨rfl, rfl⟩ := depthAfter?_eq_none_iff.1 hd
      have := h₁ ['}'] (List.cons_prefix_cons.2 ⟨rfl, List.nil_prefix⟩)
      exact absurd this (by decide)
    | some f =>
      refine .cons (fun hc => ?_) hd (ih (fun q hq => ?_) ?_ fun q hq => ?_)
      · simpa using h₃ [] (List.cons_prefix_cons.2 ⟨hc.symm, List.nil_prefix⟩)
      · have := count_of_depthAfter? hd q
        have := h₁ (c :: q) (List.cons_prefix_cons.2 ⟨rfl, hq⟩)
        omega
      · have := count_of_depthAfter? hd s
        omega
      · have := count_of_depthAfter? hd q
        have := h₃ (c :: q) (List.cons_prefix_cons.2 ⟨rfl, hq⟩)
        omega

/-- A text is enclosed if it leads from outside braces to outside braces. -/
theorem enclosed_iff_leads : Enclosed s ↔ Leads 0 s 0 := by
  refine ⟨fun h => leads_of_count ?_ ?_ ?_, fun h => ?_⟩
  · simpa using h.prefixes
  · simpa using h.total
  · simpa using h.commas
  · obtain ⟨h₁, h₂, h₃⟩ := h.count
    simp only [Nat.zero_add] at h₁ h₂ h₃
    exact ⟨h₁, h₂, h₃⟩

end Facet.Selector
