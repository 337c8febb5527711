import Facet.Arrangement
import Mathlib.Data.List.Forall2

/-!
# Sorting

Sorting puts elements in an order that their sort keys alone decide (`exists_sortKeyed_map`). So it
permutes (`exists_of_sorted_map`), which of two elements comes first is up to their keys
(`sorted_swap`), and elements that are related one by one and have equal sort keys are still related
one by one when both sides are sorted (`sorted_related`).
-/

set_option autoImplicit false

namespace Facet.Arrangement

variable {key : String} {direction : Direction} {i : Nat} {gs hs : List Graph} {keys : List Scalar}

/-! ## Sort keys -/

theorem sortKeys_cons_eq_ok_iff {g : Graph} : sortKeys key i (g :: gs) = .ok keys ↔
    ∃ k ks, g.sortKey key i = .ok k ∧ sortKeys key (i + 1) gs = .ok ks ∧ k :: ks = keys := by
  rw [sortKeys]
  cases g.sortKey key i <;> cases sortKeys key (i + 1) gs <;> simp [bind, Except.bind]

theorem length_of_sortKeys (h : sortKeys key i gs = .ok keys) : keys.length = gs.length := by
  induction gs generalizing i keys with
  | nil => cases h; rfl
  | cons g gs ih =>
    obtain ⟨k, ks, -, hks, rfl⟩ := sortKeys_cons_eq_ok_iff.1 h
    simp [ih hks]

theorem sortKeys_congr
    (h : List.Forall₂ (fun g g' => ∀ i, g.sortKey key i = g'.sortKey key i) gs hs) :
    sortKeys key i gs = sortKeys key i hs := by
  induction h generalizing i with
  | nil => rfl
  | cons hg _ ih => rw [sortKeys, sortKeys, hg, ih]

/-! ## Sorted elements -/

/-- One order serves for all elements that come with the same keys. -/
theorem exists_sortKeyed_map {α : Type} (direction : Direction) (kas : List (Scalar × α)) :
    ∃ kas' : List (Scalar × α), kas'.Perm kas ∧ ∀ f : α → Graph,
      sortKeyed direction (kas.map (Prod.map id f)) = kas'.map (Prod.map id f) := by
  refine ⟨kas.mergeSort fun a b => mayPrecede direction a.1 b.1, List.mergeSort_perm _ _, ?_⟩
  intro f
  rw [sortKeyed, List.map_mergeSort]
  exact fun _ _ _ _ => rfl

/-- The elements are sorted by a permutation of places, which depends on nothing but the keys. -/
theorem exists_sorted_map {α : Type} {as : List α} (direction : Direction)
    (h : keys.length = as.length) :
    ∃ as' : List α, as'.Perm as ∧ ∀ f : α → Graph,
      (sortKeyed direction (keys.zip (as.map f))).map Prod.snd = as'.map f := by
  obtain ⟨kas, hp, hf⟩ := exists_sortKeyed_map direction (keys.zip as)
  have hs : (keys.zip as).map Prod.snd = as := List.map_snd_zip (by omega)
  refine ⟨kas.map Prod.snd, hs ▸ hp.map Prod.snd, fun f => ?_⟩
  rw [List.zip_map_right, hf, List.map_map, List.map_map]
  rfl

theorem sorted_eq_ok_iff : sorted key direction gs = .ok hs ↔
    ∃ keys, sortKeys key 0 gs = .ok keys ∧ incomparable? keys = none ∧
      (sortKeyed direction (keys.zip gs)).map Prod.snd = hs := by
  unfold sorted
  cases sortKeys key 0 gs with
  | error fault => simp [bind, Except.bind]
  | ok keys =>
    cases h : incomparable? keys <;> simp [bind, Except.bind, h]

/-- Two elements change places if the first may not stand before the second. -/
theorem sorted_swap {g h : Graph} {a b : Scalar} (hkeys : sortKeys key 0 [g, h] = .ok [a, b])
    (hcomparable : incomparable? [a, b] = none) (hle : mayPrecede direction a b = false) :
    sorted key direction [g, h] = .ok [h, g] := by
  refine sorted_eq_ok_iff.2 ⟨_, hkeys, hcomparable, ?_⟩
  simp [sortKeyed, List.mergeSort, hle]

/-- Sorting permutes the elements, wherever they come from. -/
theorem exists_of_sorted_map {α : Type} {as : List α} {f : α → Graph}
    (h : sorted key direction (as.map f) = .ok hs) :
    ∃ as' : List α, as'.Perm as ∧ hs = as'.map f := by
  obtain ⟨keys, hk, -, rfl⟩ := sorted_eq_ok_iff.1 h
  have hl : keys.length = as.length := by rw [length_of_sortKeys hk, List.length_map]
  obtain ⟨as', hp, hf⟩ := exists_sorted_map direction hl
  exact ⟨as', hp, hf f⟩

/-- Related elements with equal sort keys are sorted alike, or fail alike. -/
theorem sorted_related (direction : Direction) {R : Graph → Graph → Prop}
    (hR : ∀ g g', R g g' → ∀ i, g.sortKey key i = g'.sortKey key i) (h : List.Forall₂ R gs hs) :
    (∃ fault, sorted key direction gs = .error fault ∧ sorted key direction hs = .error fault) ∨
      ∃ gs' hs', sorted key direction gs = .ok gs' ∧ sorted key direction hs = .ok hs' ∧
        List.Forall₂ R gs' hs' := by
  have hkeys : sortKeys key 0 gs = sortKeys key 0 hs := sortKeys_congr (h.imp hR)
  cases hk : sortKeys key 0 gs with
  | error fault =>
    refine .inl ⟨fault, ?_, ?_⟩
    · rw [sorted, hk]; rfl
    · rw [sorted, ← hkeys, hk]; rfl
  | ok keys =>
    cases hc : incomparable? keys with
    | some fault =>
      refine .inl ⟨fault, ?_, ?_⟩
      · simp [sorted, hk, hc, bind, Except.bind]
      · simp [sorted, ← hkeys, hk, hc, bind, Except.bind]
    | none =>
      -- sort the pairs of related elements; either side is then a projection of the pairs
      obtain ⟨hl, hz⟩ := List.forall₂_iff_zip.1 h
      have hlen : keys.length = (gs.zip hs).length := by
        rw [length_of_sortKeys hk, List.length_zip, ← hl, Nat.min_self]
      obtain ⟨ps, hp, hf⟩ := exists_sorted_map direction hlen
      have hgs := hf Prod.fst
      have hhs := hf Prod.snd
      rw [List.map_fst_zip (by omega)] at hgs
      rw [List.map_snd_zip (by omega)] at hhs
      refine .inr ⟨_, _, sorted_eq_ok_iff.2 ⟨keys, hk, hc, hgs⟩,
        sorted_eq_ok_iff.2 ⟨keys, hkeys ▸ hk, hc, hhs⟩, ?_⟩
      rw [List.forall₂_map_left_iff, List.forall₂_map_right_iff, List.forall₂_same]
      exact fun p hm => hz (hp.subset hm)

end Facet.Arrangement
