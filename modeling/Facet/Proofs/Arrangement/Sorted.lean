import Facet.Proofs.Arrangement
import Facet.Proofs.Lists
import Facet.Proofs.Scalar

/-!
# Collections in order

What becomes of a collection that is ordered by a key. If all its elements have plain values under
the key and these compare with each other (`Sortable`), they are put in order without exchanging
equal ones (`Sorts`); otherwise they stay as they are, and one diagnostic tells which element is to
blame (`arrange_in_memory`). The sort looks at the first value to see whether all compare, which is
enough because comparing is an equivalence (`incomparable?_eq_none_iff`).
-/

set_option autoImplicit false

namespace Facet

/-! ## Values to sort by -/

namespace Graph

/-- The value that an element has under a key: objects have values, other elements do not. -/
def valueAt? (key : String) : Graph → Option Graph
  | .object o => o.attribute? key
  | _ => none

/-- The value that an element has under a key, if it is a scalar. -/
def plainAt? (key : String) (g : Graph) : Option Scalar :=
  match g.valueAt? key with
  | some (.scalar s) => some s
  | _ => none

/-- What is wrong with an element that has no plain value under the key: it has none at all, or one
with parts. -/
def complaint (key : String) (g : Graph) : DiagnosticKind :=
  if (g.valueAt? key).isNone then .invalidOrderField else .unorderableCollection

theorem sortKey_of_plainAt? {key : String} {g : Graph} {s : Scalar} (i : Nat)
    (h : g.plainAt? key = some s) : g.sortKey key i = .ok s := by
  unfold plainAt? at h
  split at h
  · next hv =>
    cases h
    cases g with
    | object o =>
      simp only [valueAt?] at hv
      simp only [sortKey, hv]
    | scalar t => cases hv
    | sequence elements declared native => cases hv
  · cases h

theorem sortKey_of_plainAt?_eq_none {key : String} {g : Graph} (i : Nat)
    (h : g.plainAt? key = none) :
    ∃ fault, g.sortKey key i = .error fault ∧ fault.kind = g.complaint key := by
  cases g with
  | scalar s => exact ⟨_, rfl, rfl⟩
  | sequence elements declared native => exact ⟨_, rfl, rfl⟩
  | object o =>
    cases hv : o.attribute? key with
    | none =>
      exact ⟨.missing i, by simp only [sortKey, hv], by simp [complaint, valueAt?, hv, OrderFault.kind]⟩
    | some v =>
      have hnot : ∀ s, v ≠ .scalar s := by
        rintro s rfl
        simp [plainAt?, valueAt?, hv] at h
      refine ⟨.notPlain i, ?_, by simp [complaint, valueAt?, hv, OrderFault.kind]⟩
      cases v with
      | scalar s => exact absurd rfl (hnot s)
      | object o' => simp only [sortKey, hv]
      | sequence elements declared native => simp only [sortKey, hv]

end Graph

namespace Arrangement

variable {key : String} {direction : Direction} {gs hs : List Graph}

/-- Have all elements plain values under the key, which compare with each other? -/
structure Sortable (key : String) (gs : List Graph) : Prop where
  plain : ∀ g ∈ gs, (g.plainAt? key).isSome
  comparable : ∀ g ∈ gs, ∀ h ∈ gs, ∀ a b, g.plainAt? key = some a → h.plainAt? key = some b →
    a.Comparable b

/-- May an element stand before another by their values under the key? In ascending order the
greatest comes first. -/
def InOrder (direction : Direction) (a b : Scalar) : Prop :=
  match direction with
  | .asc => b.AtMost a
  | .desc => a.AtMost b

/-- Is the value under the key equal to the scalar, as values compare? -/
def hasValue (key : String) (s : Scalar) (g : Graph) : Bool :=
  (g.plainAt? key).any fun a => a.compare? s = some .eq

/-- The second list has the elements of the first in order, and those with equal values in the order
in which they come in the first. -/
structure Sorts (key : String) (direction : Direction) (gs hs : List Graph) : Prop where
  perm : hs.Perm gs
  ordered : hs.Pairwise fun g h => ∃ a b, g.plainAt? key = some a ∧ h.plainAt? key = some b ∧
    InOrder direction a b
  stable : ∀ s, hs.filter (hasValue key s) = gs.filter (hasValue key s)

/-! ## Steps of sorting -/

theorem sortKeys_eq_ok_iff {i : Nat} {keys : List Scalar} : sortKeys key i gs = .ok keys ↔
    List.Forall₂ (fun g k => g.plainAt? key = some k) gs keys := by
  induction gs generalizing i keys with
  | nil =>
    rw [List.forall₂_nil_left_iff, sortKeys]
    exact ⟨fun h => (Except.ok.inj h).symm, fun h => by rw [h]⟩
  | cons g gs ih =>
    rw [sortKeys_cons_eq_ok_iff]
    constructor
    · rintro ⟨k, ks, hk, hks, rfl⟩
      refine .cons ?_ (ih.1 hks)
      cases hp : g.plainAt? key with
      | some s =>
        rw [Graph.sortKey_of_plainAt? i hp] at hk
        rw [Except.ok.inj hk]
      | none =>
        obtain ⟨fault, hf, -⟩ := Graph.sortKey_of_plainAt?_eq_none i hp
        rw [hf] at hk
        cases hk
    · intro h
      cases h with
      | cons hp hps => exact ⟨_, _, Graph.sortKey_of_plainAt? i hp, ih.2 hps, rfl⟩

/-- The first element without a plain value is to blame if there is one. -/
theorem kind_of_sortKeys_eq_error {i : Nat} {fault : OrderFault}
    (h : sortKeys key i gs = .error fault) :
    ∃ g, (gs.find? fun g => (g.plainAt? key).isNone) = some g ∧
      fault.kind = g.complaint key := by
  induction gs generalizing i with
  | nil => cases h
  | cons g gs ih =>
    rw [sortKeys] at h
    cases hp : g.plainAt? key with
    | some s =>
      rw [Graph.sortKey_of_plainAt? i hp] at h
      cases hs : sortKeys key (i + 1) gs with
      | ok ks =>
        rw [hs] at h
        cases h
      | error fault' =>
        rw [hs] at h
        cases h
        obtain ⟨g', hg', hk⟩ := ih hs
        refine ⟨g', ?_, hk⟩
        rw [List.find?_cons_of_neg (by simp [hp])]
        exact hg'
    | none =>
      obtain ⟨fault', hf, hk⟩ := Graph.sortKey_of_plainAt?_eq_none i hp
      rw [hf] at h
      cases h
      exact ⟨g, List.find?_cons_of_pos (by simp [hp]), hk⟩

/-- If all values compare with the first, they compare with each other. -/
theorem incomparable?_eq_none_iff {keys : List Scalar} : incomparable? keys = none ↔
    ∀ a ∈ keys, ∀ b ∈ keys, a.Comparable b := by
  cases keys with
  | nil => simp [incomparable?]
  | cons k ks =>
    have hfirst : incomparable? (k :: ks) = none ↔ ∀ b ∈ k :: ks, k.Comparable b := by
      rw [incomparable?, Option.map_eq_none_iff, List.find?_eq_none]
      simp only [Scalar.Comparable, Option.isNone_iff_eq_none, Option.isSome_iff_ne_none, ne_eq]
    rw [hfirst]
    constructor
    · intro h a ha b hb
      exact (h a ha).symm.trans (h b hb)
    · intro h b hb
      exact h k (.head _) b hb

theorem kind_of_incomparable? {keys : List Scalar} {fault : OrderFault}
    (h : incomparable? keys = some fault) : fault.kind = .unorderableCollection := by
  cases keys with
  | nil => cases h
  | cons k ks =>
    obtain ⟨l, -, rfl⟩ := Option.map_eq_some_iff.1 h
    rfl

theorem mayPrecede_iff {a b : Scalar} (h : a.Comparable b) :
    mayPrecede direction a b = true ↔ InOrder direction a b := by
  cases direction with
  | asc => simp only [mayPrecede, InOrder, h.atMost_iff_swap, decide_eq_true_eq]
  | desc => simp only [mayPrecede, InOrder, h.atMost_iff, decide_eq_true_eq]

theorem InOrder.trans {a b c : Scalar} (h : InOrder direction a b) (h' : InOrder direction b c) :
    InOrder direction a c := by
  cases direction with
  | asc => exact Scalar.AtMost.trans h' h
  | desc => exact Scalar.AtMost.trans h h'

theorem inOrder_total {a b : Scalar} (h : a.Comparable b) :
    InOrder direction a b ∨ InOrder direction b a := by
  cases direction with
  | asc => exact h.total.symm
  | desc => exact h.total

theorem inOrder_of_place_eq {a b : Scalar} (h : a.place = b.place) : InOrder direction a b := by
  cases direction with
  | asc => exact Scalar.atMost_of_compare?_eq (Scalar.compare?_eq_some_eq_iff.2 h.symm)
  | desc => exact Scalar.atMost_of_compare?_eq (Scalar.compare?_eq_some_eq_iff.2 h)

/-! ## Sortable collections -/

theorem sortable_iff : Sortable key gs ↔
    ∃ keys, sortKeys key 0 gs = .ok keys ∧ incomparable? keys = none := by
  simp only [sortKeys_eq_ok_iff, incomparable?_eq_none_iff]
  constructor
  · rintro ⟨hp, hc⟩
    obtain ⟨keys, hk⟩ := exists_forall₂ fun g hg => Option.isSome_iff_exists.1 (hp g hg)
    refine ⟨keys, hk, fun a ha b hb => ?_⟩
    obtain ⟨g, hg, hga⟩ := exists_left_of_mem hk ha
    obtain ⟨h, hh, hhb⟩ := exists_left_of_mem hk hb
    exact hc g hg h hh a b hga hhb
  · rintro ⟨keys, hk, hc⟩
    refine ⟨fun g hg => ?_, fun g hg h hh a b ha hb => ?_⟩
    · obtain ⟨k, -, hgk⟩ := exists_right_of_mem hk hg
      rw [hgk]
      rfl
    · obtain ⟨k, hk', hgk⟩ := exists_right_of_mem hk hg
      obtain ⟨l, hl, hhl⟩ := exists_right_of_mem hk hh
      rw [ha] at hgk
      rw [hb] at hhl
      cases hgk
      cases hhl
      exact hc a hk' b hl

/-- The elements are in order once they are sorted on values that compare. -/
theorem sorts_sortKeyed {keys : List Scalar}
    (hk : List.Forall₂ (fun g k => g.plainAt? key = some k) gs keys)
    (hc : ∀ a ∈ keys, ∀ b ∈ keys, a.Comparable b) :
    Sorts key direction gs ((sortKeyed direction (keys.zip gs)).map Prod.snd) := by
  obtain ⟨hlen, hzip⟩ := List.forall₂_iff_zip.1 hk.flip
  have hsnd : (keys.zip gs).map Prod.snd = gs := List.map_snd_zip (by omega)
  have hmem : ∀ p ∈ keys.zip gs, p.1 ∈ keys := fun p hp => (List.of_mem_zip hp).1
  have hval : ∀ p ∈ keys.zip gs, p.2.plainAt? key = some p.1 := fun p hp => hzip hp
  have htrans : ∀ p q r : Scalar × Graph, p.1 ∈ keys → q.1 ∈ keys → r.1 ∈ keys →
      mayPrecede direction p.1 q.1 = true → mayPrecede direction q.1 r.1 = true →
      mayPrecede direction p.1 r.1 = true := by
    intro p q r hp hq hr hpq hqr
    rw [mayPrecede_iff (hc _ hp _ hq)] at hpq
    rw [mayPrecede_iff (hc _ hq _ hr)] at hqr
    rw [mayPrecede_iff (hc _ hp _ hr)]
    exact hpq.trans hqr
  have htotal : ∀ p q : Scalar × Graph, p.1 ∈ keys → q.1 ∈ keys →
      (mayPrecede direction p.1 q.1 || mayPrecede direction q.1 p.1) = true := by
    intro p q hp hq
    rw [Bool.or_eq_true, mayPrecede_iff (hc _ hp _ hq), mayPrecede_iff (hc _ hq _ hp)]
    exact inOrder_total (hc _ hp _ hq)
  have hperm := List.mergeSort_perm (keys.zip gs) fun p q => mayPrecede direction p.1 q.1
  refine ⟨?_, ?_, fun s => ?_⟩
  · have h := hperm.map Prod.snd
    rw [hsnd] at h
    exact h
  · rw [List.pairwise_map]
    refine (pairwise_mergeSort_of_forall htrans htotal hmem).imp_of_mem fun {p q} hp hq hle => ?_
    have hp := hperm.subset hp
    have hq := hperm.subset hq
    rw [mayPrecede_iff (hc _ (hmem p hp) _ (hmem q hq))] at hle
    exact ⟨p.1, q.1, hval p hp, hval q hq, hle⟩
  · have hplace : ∀ p ∈ keys.zip gs,
        (hasValue key s ∘ Prod.snd) p = true → p.1.place = s.place := by
      intro p hp h
      simp only [Function.comp, hasValue, hval p hp, Option.any_some, decide_eq_true_eq] at h
      exact Scalar.compare?_eq_some_eq_iff.1 h
    rw [List.filter_map, sortKeyed, filter_mergeSort_of_forall htrans htotal hmem,
      ← List.filter_map, hsnd]
    intro p hp q hq h h'
    rw [mayPrecede_iff (hc _ (hmem p hp) _ (hmem q hq))]
    exact inOrder_of_place_eq ((hplace p hp h).trans (hplace q hq h').symm)

/-! ## Collections that stay as they are -/

/-- What is wrong with a collection that is not sortable: what is with its first element without a
plain value or, if there is none, that two values do not compare. -/
def complaint (key : String) (gs : List Graph) : DiagnosticKind :=
  match gs.find? fun g => (g.plainAt? key).isNone with
  | some g => g.complaint key
  | none => .unorderableCollection

theorem kind_of_sorted_eq_error {fault : OrderFault} (h : sorted key direction gs = .error fault) :
    fault.kind = complaint key gs := by
  unfold complaint
  cases hk : sortKeys key 0 gs with
  | error fault' =>
    rw [sorted, hk] at h
    cases h
    obtain ⟨g, hg, hkind⟩ := kind_of_sortKeys_eq_error hk
    rw [hg]
    exact hkind
  | ok keys =>
    have hnone : (gs.find? fun g => (g.plainAt? key).isNone) = none := by
      rw [List.find?_eq_none]
      intro g hg
      obtain ⟨k, -, hgk⟩ := exists_right_of_mem (sortKeys_eq_ok_iff.1 hk) hg
      simp [hgk]
    rw [hnone]
    cases hc : incomparable? keys with
    | none =>
      rw [sorted_eq_ok_iff.2 ⟨keys, hk, hc, rfl⟩] at h
      cases h
    | some fault' =>
      have hs : sorted key direction gs = .error fault' := by
        simp only [sorted, hk, hc, bind, Except.bind]
      rw [hs] at h
      cases h
      exact kind_of_incomparable? hc

/-! ## The outcome -/

/-- **Ordering in memory.** A collection without an order of its own is sorted, and nothing is
recorded, if it is sortable. Otherwise it stays as it is, and one diagnostic tells what is wrong. -/
theorem arrange_in_memory (path key : String) (direction : Direction) (gs : List Graph)
    (ds : Diagnostics) : ∃ hs es, (arrange path key direction gs none).run ds = (hs, ds ++ es) ∧
      hs.Perm gs ∧ (Sortable key gs → Sorts key direction gs hs ∧ es = []) ∧
      (¬Sortable key gs → hs = gs ∧ ∃ reason, es = [⟨complaint key gs,
        "Cannot order " ++ path ++ " by " ++ key ++ ": " ++ reason⟩]) := by
  cases h : sorted key direction gs with
  | ok hs =>
    obtain ⟨keys, hk, hc, hsorted⟩ := sorted_eq_ok_iff.1 h
    have hsortable : Sortable key gs := sortable_iff.2 ⟨keys, hk, hc⟩
    have hsorts : Sorts key direction gs hs := by
      rw [← hsorted]
      exact sorts_sortKeyed (sortKeys_eq_ok_iff.1 hk) (incomparable?_eq_none_iff.1 hc)
    refine ⟨hs, [], ?_, hsorts.perm, fun _ => ⟨hsorts, rfl⟩, fun hn => absurd hsortable hn⟩
    rw [arrange, arranged, h, List.append_nil]
    rfl
  | error fault =>
    have hnot : ¬Sortable key gs := by
      intro hs
      obtain ⟨keys, hk, hc⟩ := sortable_iff.1 hs
      rw [sorted_eq_ok_iff.2 ⟨keys, hk, hc, rfl⟩] at h
      cases h
    refine ⟨gs, [⟨fault.kind, "Cannot order " ++ path ++ " by " ++ key ++ ": " ++ fault.reason⟩],
      ?_, .refl gs, fun hs => absurd hs hnot, fun _ => ⟨rfl, fault.reason, ?_⟩⟩
    · rw [arrange, arranged, h]
      rfl
    · rw [kind_of_sorted_eq_error h]

end Arrangement

end Facet
