import Facet.Proofs.Arrangement.Sorted

/-!
# Collections that are ordered again

One list only puts a collection in order (`Sorts.unique`), so that is what sorting yields
(`sorted_eq_ok_iff_sorts`), and a collection that is in order stays as it is
(`Sorts.eq_of_ordered`). What an ordering keeps of a collection (`Kept`), and with it any number of
orderings (`kept_arrangeAll`), is all that a further ordering depends on (`Kept.sorted_eq`). So an
ordering absorbs those before it (`arrange_absorbs`), and a sorted collection also stays in order when
its elements lose what they were sorted by (`sorted_of_forall₂`).
-/

set_option autoImplicit false

namespace Facet.Arrangement

variable {key : String} {direction : Direction} {g h : Graph} {gs hs ks : List Graph}

/-! ## The order of a collection -/

/-- May the element stand before the other by their values under the key? -/
def StandsBefore (key : String) (direction : Direction) (g h : Graph) : Prop :=
  ∃ a b, g.plainAt? key = some a ∧ h.plainAt? key = some b ∧ InOrder direction a b

/-- Elements stand in order as their values do. -/
theorem pairwise_standsBefore_iff {i : Nat} {keys : List Scalar} (h : sortKeys key i gs = .ok keys) :
    gs.Pairwise (StandsBefore key direction) ↔ keys.Pairwise (InOrder direction) := by
  have hmap : gs.map (Graph.plainAt? key) = keys.map some := by
    rw [← List.forall₂_eq_eq_eq, List.forall₂_map_left_iff, List.forall₂_map_right_iff]
    exact sortKeys_eq_ok_iff.1 h
  have hplain : gs.Pairwise (StandsBefore key direction) ↔ (gs.map (Graph.plainAt? key)).Pairwise
      fun x y => ∃ a b, x = some a ∧ y = some b ∧ InOrder direction a b := by
    rw [List.pairwise_map]
    rfl
  rw [hplain, hmap, List.pairwise_map]
  simp

/-- Elements that may stand either way round have equal values. -/
theorem StandsBefore.exists_hasValue (hgh : StandsBefore key direction g h)
    (hhg : StandsBefore key direction h g) :
    ∃ s, hasValue key s g = true ∧ hasValue key s h = true := by
  obtain ⟨a, b, ha, hb, hab⟩ := hgh
  obtain ⟨b', a', hb', ha', hba⟩ := hhg
  cases ha.symm.trans ha'
  cases hb.symm.trans hb'
  have heq : b.compare? a = some .eq := by
    cases direction with
    | asc => exact Scalar.AtMost.antisymm hab hba
    | desc => exact Scalar.AtMost.antisymm hba hab
  refine ⟨a, ?_, ?_⟩
  · simp [hasValue, ha, Scalar.compare?_eq_some_eq_iff]
  · simp [hasValue, hb, heq]

theorem Sorts.head_eq (hsorts : Sorts key direction (g :: gs) (h :: hs))
    (ho : (g :: gs).Pairwise (StandsBefore key direction)) : h = g := by
  have ho' : (h :: hs).Pairwise (StandsBefore key direction) := hsorts.ordered
  rcases List.mem_cons.1 (hsorts.perm.subset (.head hs)) with he | hh
  · exact he
  rcases List.mem_cons.1 (hsorts.perm.symm.subset (.head gs)) with he | hg
  · exact he.symm
  -- their values are equal, and each is the first of the elements with that value
  obtain ⟨s, hsg, hsh⟩ :=
    ((List.pairwise_cons.1 ho).1 h hh).exists_hasValue ((List.pairwise_cons.1 ho').1 g hg)
  have hstable := hsorts.stable s
  rw [List.filter_cons_of_pos hsh, List.filter_cons_of_pos hsg] at hstable
  exact (List.cons.inj hstable).1

/-- A collection that is in order is put in order as it is. -/
theorem Sorts.eq_of_ordered (h : Sorts key direction gs hs)
    (ho : gs.Pairwise (StandsBefore key direction)) : hs = gs := by
  induction gs generalizing hs with
  | nil => exact h.perm.eq_nil
  | cons g gs ih =>
    cases hs with
    | nil => exact h.perm.symm.eq_nil.symm
    | cons k ks =>
      obtain rfl := h.head_eq ho
      have htail : Sorts key direction gs ks := by
        refine ⟨h.perm.cons_inv, (List.pairwise_cons.1 h.ordered).2, fun s => ?_⟩
        have hstable := h.stable s
        rw [List.filter_cons, List.filter_cons] at hstable
        split at hstable
        · exact (List.cons.inj hstable).2
        · exact hstable
      rw [ih htail (List.pairwise_cons.1 ho).2]

theorem Sorts.unique (h : Sorts key direction gs hs) (h' : Sorts key direction gs ks) : hs = ks := by
  have hsorts : Sorts key direction ks hs :=
    ⟨h.perm.trans h'.perm.symm, h.ordered, fun s => (h.stable s).trans (h'.stable s).symm⟩
  exact hsorts.eq_of_ordered h'.ordered

/-! ## What sorting yields -/

theorem Sortable.perm (h : Sortable key gs) (hp : hs.Perm gs) : Sortable key hs :=
  ⟨fun g hg => h.plain g (hp.subset hg), fun g hg g' hg' =>
    h.comparable g (hp.subset hg) g' (hp.subset hg')⟩

theorem Sortable.exists_sorted (h : Sortable key gs) (direction : Direction) :
    ∃ hs, sorted key direction gs = .ok hs := by
  obtain ⟨keys, hk, hc⟩ := sortable_iff.1 h
  exact ⟨_, sorted_eq_ok_iff.2 ⟨keys, hk, hc, rfl⟩⟩

theorem sorts_of_sorted (h : sorted key direction gs = .ok hs) :
    Sortable key gs ∧ Sorts key direction gs hs := by
  obtain ⟨keys, hk, hc, rfl⟩ := sorted_eq_ok_iff.1 h
  exact ⟨sortable_iff.2 ⟨keys, hk, hc⟩,
    sorts_sortKeyed (sortKeys_eq_ok_iff.1 hk) (incomparable?_eq_none_iff.1 hc)⟩

/-- Sorting succeeds for collections that are sortable, and yields the list that puts them in
order. -/
theorem sorted_eq_ok_iff_sorts : sorted key direction gs = .ok hs ↔
    Sortable key gs ∧ Sorts key direction gs hs := by
  refine ⟨sorts_of_sorted, fun ⟨hsortable, hsorts⟩ => ?_⟩
  obtain ⟨ks, hks⟩ := hsortable.exists_sorted direction
  rw [hks, (sorts_of_sorted hks).2.unique hsorts]

/-! ## What ordering keeps -/

/-- The second list has the elements of the first, those with equal values in the order in which they
come in the first; if the first is not sortable, they are the same list. -/
structure Kept (key : String) (gs hs : List Graph) : Prop where
  perm : hs.Perm gs
  stable : ∀ s, hs.filter (hasValue key s) = gs.filter (hasValue key s)
  unsortable : ¬Sortable key gs → hs = gs

namespace Kept

theorem refl (key : String) (gs : List Graph) : Kept key gs gs :=
  ⟨.refl gs, fun _ => rfl, fun _ => rfl⟩

theorem trans (h : Kept key gs hs) (h' : Kept key hs ks) : Kept key gs ks := by
  refine ⟨h'.perm.trans h.perm, fun s => (h'.stable s).trans (h.stable s), fun hn => ?_⟩
  obtain rfl := h.unsortable hn
  exact h'.unsortable hn

/-- What is kept decides how a collection is sorted. -/
theorem sorted_eq (h : Kept key gs hs) (direction : Direction) :
    sorted key direction hs = sorted key direction gs := by
  by_cases hgs : Sortable key gs
  · obtain ⟨ks, hks⟩ := hgs.exists_sorted direction
    have hsorts := (sorts_of_sorted hks).2
    rw [hks]
    exact sorted_eq_ok_iff_sorts.2 ⟨hgs.perm h.perm, hsorts.perm.trans h.perm.symm, hsorts.ordered,
      fun s => (hsorts.stable s).trans (h.stable s).symm⟩
  · rw [h.unsortable hgs]

end Kept

theorem kept_sorted (key : String) (direction : Direction) (gs : List Graph) :
    Kept key gs ((sorted key direction gs).toOption.getD gs) := by
  cases h : sorted key direction gs with
  | ok hs =>
    obtain ⟨hsortable, hsorts⟩ := sorts_of_sorted h
    exact ⟨hsorts.perm, hsorts.stable, fun hn => absurd hsortable hn⟩
  | error fault => exact .refl key gs

/-- A sorted collection stays in order when elements give way to others that have no values under the
key but theirs. -/
theorem sorted_of_forall₂
    (h : List.Forall₂ (fun g h => ∀ a, h.plainAt? key = some a → g.plainAt? key = some a)
      ((sorted key direction gs).toOption.getD gs) hs) :
    (sorted key direction hs).toOption.getD hs = hs := by
  cases hsorted : sorted key direction hs with
  | error fault => rfl
  | ok ks =>
    obtain ⟨keys, hkeys, hcomparable, -⟩ := sorted_eq_ok_iff.1 hsorted
    have hkeys' : sortKeys key 0 ((sorted key direction gs).toOption.getD gs) = .ok keys := by
      rw [sortKeys_eq_ok_iff] at hkeys ⊢
      refine forall₂_of_square (S := Eq) h (List.forall₂_refl _) hkeys ?_
      rintro g g' _ k hg rfl hk
      exact hg k hk
    have hkept : sorted key direction ((sorted key direction gs).toOption.getD gs) =
        sorted key direction gs := (kept_sorted key direction gs).sorted_eq direction
    -- the first ordering has not failed either, so it is what it yields that has these values
    obtain ⟨gs', hgs'⟩ : ∃ gs', sorted key direction gs = .ok gs' :=
      ⟨_, hkept ▸ sorted_eq_ok_iff.2 ⟨keys, hkeys', hcomparable, rfl⟩⟩
    rw [hgs'] at hkeys'
    have hordered : keys.Pairwise (InOrder direction) :=
      (pairwise_standsBefore_iff hkeys').1 (sorts_of_sorted hgs').2.ordered
    exact (sorts_of_sorted hsorted).2.eq_of_ordered ((pairwise_standsBefore_iff hkeys).2 hordered)

/-- Orders a collection by one key several times, in one direction after the other. -/
def arrangeAll (path key : String) (directions : List Direction) (gs : List Graph) :
    StateM Diagnostics (List Graph) :=
  directions.foldlM (fun gs direction => arrange path key direction gs none) gs

theorem kept_arrange (path key : String) (direction : Direction) (gs : List Graph)
    (ds : Diagnostics) : Kept key gs ((arrange path key direction gs none).run ds).1 := by
  have hkept := kept_sorted key direction gs
  unfold arrange arranged
  cases h : sorted key direction gs with
  | ok hs =>
    rw [h] at hkept
    exact hkept
  | error fault => exact .refl key gs

theorem kept_arrangeAll (path key : String) (directions : List Direction) (gs : List Graph)
    (ds : Diagnostics) : Kept key gs ((arrangeAll path key directions gs).run ds).1 := by
  unfold arrangeAll
  induction directions generalizing gs ds with
  | nil => exact .refl key gs
  | cons direction directions ih =>
    rw [List.foldlM_cons]
    exact (kept_arrange path key direction gs ds).trans (ih _ _)

/-! ## Absorption -/

/-- **An ordering absorbs those before it.** However often and in whichever directions a collection
has been ordered by a key, ordering it by the key has the outcome and the diagnostics that it has for
the collection as it was. Elements with equal values have not changed places, and a collection that
is not sortable is as it was. -/
theorem arrange_absorbs (path key : String) (directions : List Direction) (direction : Direction)
    (gs : List Graph) (ds es : Diagnostics) :
    let hs := ((arrangeAll path key directions gs).run ds).1
    (arrange path key direction hs none).run es = (arrange path key direction gs none).run es ∧
      (∀ s, hs.filter (hasValue key s) = gs.filter (hasValue key s)) ∧
      (¬Sortable key gs → hs = gs) := by
  intro hs
  have hkept : Kept key gs hs := kept_arrangeAll path key directions gs ds
  refine ⟨?_, hkept.stable, hkept.unsortable⟩
  by_cases hgs : Sortable key gs
  · obtain ⟨ks, hks⟩ := hgs.exists_sorted direction
    rw [arrange, arrange, arranged, arranged, hkept.sorted_eq direction, hks]
  · rw [hkept.unsortable hgs]

end Facet.Arrangement
