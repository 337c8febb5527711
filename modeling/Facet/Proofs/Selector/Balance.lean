import Facet.Proofs.Selector.Offsets

/-!
# Counting braces

`excess s` is how many more braces a text opens than it closes. A text is `Balanced` if the excess is
nowhere below zero on the way through it and zero at its end. The depth that the scanners follow is
the excess, as long as it is not below zero (`textDepth?_eq_some_iff`), so that the fault of the braces
of a text can be told from counting alone (`braceFault?_eq_some_iff`): it is at the first closing brace
that would bring the excess below zero, or else at the end of a text that has some excess left.
-/

set_option autoImplicit false

namespace Facet.Selector

open Text (byteLength)

variable {c : Char} {s : List Char} {d e position : Nat} {fault : Fault}

/-! ## The excess of opening braces -/

/-- How many more braces the text opens than it closes. -/
def excess (s : List Char) : Int := s.count '{' - s.count '}'

@[simp] theorem excess_nil : excess [] = 0 := rfl

theorem excess_open (s : List Char) : excess ('{' :: s) = excess s + 1 := by
  simp only [excess, List.count_cons_self, List.count_cons_of_ne (show '{' ≠ '}' by decide)]
  omega

theorem excess_append (s t : List Char) : excess (s ++ t) = excess s + excess t := by
  simp only [excess, List.count_append]
  omega

/-- A character changes the excess as it does the depth. -/
theorem excess_cons (h : depthAfter? d c = some e) (s : List Char) :
    d + excess (c :: s) = e + excess s := by
  have := count_of_depthAfter? h s
  simp only [excess]
  omega

/-- The depth of braces is the excess where that is never below zero. -/
theorem textDepth?_eq_some_iff : textDepth? d s = some e ↔
    (∀ p, p <+: s → 0 ≤ d + excess p) ∧ d + excess s = e := by
  induction s generalizing d with
  | nil =>
    simp only [textDepth?, Option.some.injEq, List.prefix_nil, forall_eq, excess_nil]
    omega
  | cons c s ih =>
    cases hd : depthAfter? d c with
    | none =>
      obtain ⟨rfl, rfl⟩ := depthAfter?_eq_none_iff.1 hd
      have hneg : ¬0 ≤ (0 : Nat) + excess ['}'] := by decide
      simp only [textDepth?, hd, Option.bind_eq_bind, Option.bind_none, reduceCtorEq, false_iff]
      rintro ⟨hp, -⟩
      exact hneg (hp ['}'] (List.prefix_append ['}'] s))
    | some f =>
      have hnext : ∀ p, d + excess (c :: p) = f + excess p := excess_cons hd
      simp only [textDepth?_cons, hd, Option.some.injEq, exists_eq_left', ih, hnext]
      refine and_congr_left fun _ => ⟨fun h p hp => ?_, fun h p hp => ?_⟩
      · rcases List.prefix_cons_iff.1 hp with rfl | ⟨q, rfl, hq⟩
        · simp
        · rw [hnext]
          exact h q hq
      · rw [← hnext]
        exact h (c :: p) (List.cons_prefix_cons.2 ⟨rfl, hp⟩)

theorem textDepth?_zero_iff : textDepth? 0 s = some e ↔
    (∀ p, p <+: s → 0 ≤ excess p) ∧ excess s = e := by
  simpa using textDepth?_eq_some_iff (d := 0)

/-! ## Balanced texts -/

/-- Every brace of the text has its partner. -/
structure Balanced (s : List Char) : Prop where
  prefixes : ∀ p, p <+: s → 0 ≤ excess p
  total : excess s = 0

theorem balanced_iff_textDepth? : Balanced s ↔ textDepth? 0 s = some 0 := by
  rw [textDepth?_zero_iff]
  exact ⟨fun h => ⟨h.prefixes, h.total⟩, fun h => ⟨h.1, h.2⟩⟩

/-- The text closes no brace that it has not opened, but opens some that it does not close. -/
structure Unclosed (s : List Char) : Prop where
  prefixes : ∀ p, p <+: s → 0 ≤ excess p
  total : 0 < excess s

theorem unclosed_iff_textDepth? : Unclosed s ↔ ∃ e, textDepth? 0 s = some (e + 1) := by
  simp only [textDepth?_zero_iff, exists_and_left]
  constructor
  · rintro ⟨hp, ht⟩
    exact ⟨hp, (excess s - 1).toNat, by omega⟩
  · rintro ⟨hp, e, ht⟩
    exact ⟨hp, by omega⟩

/-! ## The fault of the braces -/

/-- The scan stops at the first closing brace without a partner, or at the end of an unclosed text. -/
theorem cases_of_braceFault? (h : braceFault? d position s = some fault) :
    (∃ before after, s = before ++ '}' :: after ∧ textDepth? d before = some 0 ∧
      fault = ⟨position + byteLength before, .unexpectedClose⟩) ∨
    (∃ e, textDepth? d s = some (e + 1)) ∧ fault = ⟨position + byteLength s, .unclosedOpen⟩ := by
  induction s generalizing d position with
  | nil =>
    cases d with
    | zero => simp [braceFault?] at h
    | succ d =>
      refine .inr ⟨⟨d, rfl⟩, ?_⟩
      simpa [braceFault?] using h.symm
  | cons c s ih =>
    rw [braceFault?] at h
    cases hd : depthAfter? d c with
    | none =>
      obtain ⟨rfl, rfl⟩ := depthAfter?_eq_none_iff.1 hd
      refine .inl ⟨[], s, rfl, rfl, ?_⟩
      simpa [hd] using h.symm
    | some f =>
      simp only [hd] at h
      rcases ih h with ⟨before, after, rfl, hbefore, rfl⟩ | ⟨⟨e, he⟩, rfl⟩
      · refine .inl ⟨c :: before, after, rfl, textDepth?_cons.2 ⟨f, hd, hbefore⟩, ?_⟩
        simp [Nat.add_assoc]
      · refine .inr ⟨⟨e, textDepth?_cons.2 ⟨f, hd, he⟩⟩, ?_⟩
        simp [Nat.add_assoc]

theorem braceFault?_eq_some_iff : braceFault? 0 position s = some fault ↔
    (∃ before after, s = before ++ '}' :: after ∧ Balanced before ∧
      fault = ⟨position + byteLength before, .unexpectedClose⟩) ∨
    Unclosed s ∧ fault = ⟨position + byteLength s, .unclosedOpen⟩ := by
  simp only [balanced_iff_textDepth?, unclosed_iff_textDepth?]
  constructor
  · exact cases_of_braceFault?
  · rintro (⟨before, after, rfl, hbefore, rfl⟩ | ⟨⟨e, he⟩, rfl⟩)
    · rw [braceFault?_append hbefore]
      rfl
    · rw [← List.append_nil s, braceFault?_append he, List.append_nil]
      rfl

theorem balanced_iff_braceFault? (position : Nat) :
    Balanced s ↔ braceFault? 0 position s = none := by
  rw [balanced_iff_textDepth?, braceFault?_eq_none_iff]

end Facet.Selector
