import Mathlib.Data.List.Forall2

/-!
# Lists

Lists that are related element by element (`exists_right_of_mem`, `exists_left_of_mem`,
`forall₂_of_square`), and sorting by an order of which only the elements of the list are known to be
in it (`pairwise_mergeSort_of_forall`, `filter_mergeSort_of_forall`).
-/

set_option autoImplicit false

namespace Facet

/-! ## Related lists -/

section
variable {α β : Type} {R : α → β → Prop} {as : List α} {bs : List β}

theorem exists_right_of_mem {a : α} (h : List.Forall₂ R as bs) (ha : a ∈ as) :
    ∃ b ∈ bs, R a b := by
  induction h with
  | nil => cases ha
  | cons hr _ ih =>
    rcases List.mem_cons.1 ha with rfl | ha
    · exact ⟨_, .head _, hr⟩
    · obtain ⟨b, hb, hr⟩ := ih ha
      exact ⟨b, .tail _ hb, hr⟩

theorem exists_left_of_mem {b : β} (h : List.Forall₂ R as bs) (hb : b ∈ bs) :
    ∃ a ∈ as, R a b :=
  exists_right_of_mem h.flip hb

/-- Related elements have one index. -/
theorem exists_right_of_getElem? {a : α} {i : Nat} (h : List.Forall₂ R as bs)
    (ha : as[i]? = some a) : ∃ b, bs[i]? = some b ∧ R a b := by
  induction h generalizing i with
  | nil => simp at ha
  | @cons a' b _ _ hr _ ih =>
    cases i with
    | zero =>
      obtain rfl : a' = a := by simpa using ha
      exact ⟨b, rfl, hr⟩
    | succ i => exact ih (by simpa using ha)

theorem forall₂_imp_of_mem {S : α → β → Prop} (h : List.Forall₂ R as bs)
    (hi : ∀ a ∈ as, ∀ b, R a b → S a b) : List.Forall₂ S as bs := by
  induction h with
  | nil => exact .nil
  | cons hr _ ih =>
    rw [List.forall_mem_cons] at hi
    exact .cons (hi.1 _ hr) (ih hi.2)

/-- Elements that each have a related one have a list of them. -/
theorem exists_forall₂ (h : ∀ a ∈ as, ∃ b, R a b) : ∃ bs, List.Forall₂ R as bs := by
  induction as with
  | nil => exact ⟨[], .nil⟩
  | cons a as ih =>
    rw [List.forall_mem_cons] at h
    obtain ⟨b, hb⟩ := h.1
    obtain ⟨bs, hbs⟩ := ih h.2
    exact ⟨b :: bs, .cons hb hbs⟩

/-- Elements related to related elements are related in turn. -/
theorem forall₂_of_square {γ δ : Type} {S : α → γ → Prop} {T : β → δ → Prop} {U : γ → δ → Prop}
    {cs : List γ} {ds : List δ} (h : List.Forall₂ R as bs) (hc : List.Forall₂ S as cs)
    (hd : List.Forall₂ T bs ds) (hi : ∀ a b c d, R a b → S a c → T b d → U c d) :
    List.Forall₂ U cs ds := by
  induction h generalizing cs ds with
  | nil =>
    cases hc
    cases hd
    exact .nil
  | cons hr _ ih =>
    cases hc with
    | cons hs hc =>
      cases hd with
      | cons ht hd => exact .cons (hi _ _ _ _ hr hs ht) (ih hc hd)

end

/-! ## Sorting where only some elements compare -/

section
variable {α : Type} {P : α → Prop} {le : α → α → Bool}
  (trans : ∀ a b c, P a → P b → P c → le a b = true → le b c = true → le a c = true)
  (total : ∀ a b, P a → P b → (le a b || le b a) = true)
include trans total

/-- An order of the elements that have a property extends to all elements: the others come last. -/
theorem exists_total_extension :
    ∃ le' : α → α → Bool, (∀ a b, P a → P b → le a b = le' a b) ∧
      (∀ a b c, le' a b = true → le' b c = true → le' a c = true) ∧
      ∀ a b, (le' a b || le' b a) = true := by
  classical
  refine ⟨fun a b => decide (P b → P a ∧ le a b = true), fun a b ha hb => ?_,
    fun a b c hab hbc => ?_, fun a b => ?_⟩
  · simp [ha, hb]
  · simp only [decide_eq_true_eq] at hab hbc ⊢
    intro hc
    obtain ⟨hb, hbc⟩ := hbc hc
    obtain ⟨ha, hab⟩ := hab hb
    exact ⟨ha, trans a b c ha hb hc hab hbc⟩
  · by_cases ha : P a
    · by_cases hb : P b
      · simpa [ha, hb] using total a b ha hb
      · simp [hb]
    · simp [ha]

variable {l : List α} (hl : ∀ a ∈ l, P a)
include hl

/-- So they are sorted as by an order of all elements. -/
theorem exists_mergeSort_eq : ∃ le' : α → α → Bool, l.mergeSort le = l.mergeSort le' ∧
    (∀ a ∈ l, ∀ b ∈ l, le a b = le' a b) ∧
    (∀ a b c, le' a b = true → le' b c = true → le' a c = true) ∧
    ∀ a b, (le' a b || le' b a) = true := by
  obtain ⟨le', hle, trans', total'⟩ := exists_total_extension trans total
  have hlist : ∀ a ∈ l, ∀ b ∈ l, le a b = le' a b := fun a ha b hb => hle a b (hl a ha) (hl b hb)
  refine ⟨le', ?_, hlist, trans', total'⟩
  simpa using List.map_mergeSort (f := id) hlist

theorem pairwise_mergeSort_of_forall : (l.mergeSort le).Pairwise fun a b => le a b = true := by
  obtain ⟨le', hsort, hle, trans', total'⟩ := exists_mergeSort_eq trans total hl
  have hsorted := List.pairwise_mergeSort trans' total' l
  rw [hsort]
  refine hsorted.imp_of_mem fun {a b} ha hb h => ?_
  rw [hle a (List.mem_mergeSort.1 ha) b (List.mem_mergeSort.1 hb)]
  exact h

/-- Sorting does not move elements past each other that may stand in either order. -/
theorem filter_mergeSort_of_forall {p : α → Bool}
    (hp : ∀ a ∈ l, ∀ b ∈ l, p a = true → p b = true → le a b = true) :
    (l.mergeSort le).filter p = l.filter p := by
  obtain ⟨le', hsort, hle, trans', total'⟩ := exists_mergeSort_eq trans total hl
  have hpair : (l.filter p).Pairwise fun a b => le' a b = true := by
    refine List.pairwise_of_forall_mem_list fun a ha b hb => ?_
    obtain ⟨ha, hpa⟩ := List.mem_filter.1 ha
    obtain ⟨hb, hpb⟩ := List.mem_filter.1 hb
    rw [← hle a ha b hb]
    exact hp a ha b hb hpa hpb
  -- what is kept of the list is in order, so it is kept in that order of the sorted list
  have hsub : ((l.filter p).filter p).Sublist ((l.mergeSort le').filter p) :=
    (List.sublist_mergeSort trans' total' hpair List.filter_sublist).filter p
  rw [List.filter_filter] at hsub
  simp only [Bool.and_self] at hsub
  rw [hsort]
  exact (hsub.eq_of_length ((List.mergeSort_perm l le').filter p).length_eq.symm).symm

end

end Facet
