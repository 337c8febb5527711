import Facet.Proofs.Decimal.Comparison
import Facet.Scalar

/-!
# The order of scalars

However two numbers are compared, it is by rank (`Number.compareTo_eq_compare_rank`). So how a
scalar compares is decided by its `Place`: for a number its rank, for any other scalar itself.
Places of one kind are in a linear order and those of different kinds do not compare. So comparing
one way round tells the other (`compare?_swap`), only scalars of one place compare as equal
(`compare?_eq_some_eq_iff`), `Comparable` is an equivalence, and `AtMost` is a preorder that is
total among comparable scalars. `compare?_preorder` has the laws together; a sort may rely on them.
-/

set_option autoImplicit false

namespace Facet.Scalar

/-! ## Numbers -/

namespace Number

/-- The place of a number among all numbers, in units of 2^-1074. -/
def rank : Number → Int
  | .integer n _ => Binary64.rankOfInt n
  | .float x => x.rank

/-- Numbers compare by rank, whatever they are written as. -/
theorem compareTo_eq_compare_rank : ∀ m n : Number, m.compareTo n = compare m.rank n.rank
  | .integer _ _, .integer _ _ =>
    Binary64.compare_congr Binary64.rankOfInt_lt_iff.symm Binary64.rankOfInt_lt_iff.symm
  | .integer _ hm, .float _ => Binary64.compareInt_eq_compare_rank hm.1 hm.2
  | .float _, .integer _ hn => by
    rw [compareTo, Binary64.compareInt_eq_compare_rank hn.1 hn.2]
    exact Std.OrientedCmp.eq_swap.symm
  | .float x, .float y => by
    rw [compareTo, Binary64.compare?]
    split
    · next h => exact Binary64.totalCompare_eq_compare_rank h
    · rfl

end Number

/-! ## Places -/

/-- What decides how a scalar compares. -/
inductive Place where
  | null
  | bool (b : Bool)
  | number (rank : Int)
  | string (s : String)

def place : Scalar → Place
  | .null => .null
  | .bool b => .bool b
  | .int i => .number (Binary64.rankOfInt i.toInt)
  | .uint u => .number (Binary64.rankOfInt u.toNat)
  | .float x => .number x.rank
  | .string s => .string s

namespace Place

/-- How two places compare, if they are of one kind. -/
def compare? : Place → Place → Option Ordering
  | .null, .null => some .eq
  | .bool a, .bool b => some (compare a b)
  | .number m, .number n => some (compare m n)
  | .string a, .string b => some (compare a b)
  | _, _ => none

theorem compare?_self (p : Place) : p.compare? p = some .eq := by
  cases p <;> simp [compare?, Std.ReflCmp.compare_self]

theorem swap_compare? (p q : Place) : (p.compare? q).map Ordering.swap = q.compare? p := by
  cases p <;> cases q <;> simp [compare?, ← Std.OrientedCmp.eq_swap]

theorem eq_of_compare? {p q : Place} (h : p.compare? q = some .eq) : p = q := by
  cases p <;> cases q <;> simp_all [compare?]

theorem isSome_compare?_trans {p q r : Place} (h : (p.compare? q).isSome)
    (h' : (q.compare? r).isSome) : (p.compare? r).isSome := by
  cases q <;> cases p <;> cases r <;> simp_all [compare?]

theorem isLE_compare?_trans {p q r : Place} {a b : Ordering} (h : p.compare? q = some a)
    (h' : q.compare? r = some b) (ha : a.isLE) (hb : b.isLE) :
    ∃ c, p.compare? r = some c ∧ c.isLE := by
  -- the three places are of one kind, and each kind has a linear order
  cases q <;> cases p <;> cases h <;> cases r <;> cases h'
  case null.null.refl.null.refl => exact ⟨.eq, rfl, rfl⟩
  all_goals exact ⟨_, rfl, Std.TransCmp.isLE_trans ha hb⟩

end Place

variable {a b c : Scalar}

theorem compare?_eq_place (a b : Scalar) : a.compare? b = a.place.compare? b.place := by
  -- but for two numbers, both sides compare in the same way
  cases a <;> cases b <;>
    first | rfl | exact congrArg some (Number.compareTo_eq_compare_rank _ _)

theorem compare?_swap (a b : Scalar) : (a.compare? b).map Ordering.swap = b.compare? a := by
  rw [compare?_eq_place, compare?_eq_place, Place.swap_compare?]

theorem compare?_eq_some_eq_iff : a.compare? b = some .eq ↔ a.place = b.place := by
  rw [compare?_eq_place]
  refine ⟨Place.eq_of_compare?, fun h => ?_⟩
  rw [h, Place.compare?_self]

theorem compare?_eq_none_comm : b.compare? a = none ↔ a.compare? b = none := by
  rw [← compare?_swap, Option.map_eq_none_iff]

/-- Scalars that compare as equal compare alike with every other. -/
theorem compare?_congr (h : a.compare? b = some .eq) (c : Scalar) :
    a.compare? c = b.compare? c := by
  rw [compare?_eq_place, compare?_eq_place b, compare?_eq_some_eq_iff.1 h]

/-! ## Scalars that compare -/

/-- Do the scalars compare? -/
def Comparable (a b : Scalar) : Prop := (a.compare? b).isSome

theorem Comparable.refl (a : Scalar) : a.Comparable a := by
  rw [Comparable, compare?_eq_some_eq_iff.2 rfl]
  rfl

theorem Comparable.symm (h : a.Comparable b) : b.Comparable a := by
  rw [Comparable, ← compare?_swap, Option.isSome_map]
  exact h

theorem Comparable.trans (h : a.Comparable b) (h' : b.Comparable c) : a.Comparable c := by
  rw [Comparable, compare?_eq_place] at h h' ⊢
  exact Place.isSome_compare?_trans h h'

theorem comparable_equivalence : Equivalence Comparable :=
  ⟨Comparable.refl, Comparable.symm, Comparable.trans⟩

/-- Do the scalars compare, the first being less than the second or equal to it? -/
def AtMost (a b : Scalar) : Prop := ∃ o, a.compare? b = some o ∧ o.isLE

theorem AtMost.trans (h : a.AtMost b) (h' : b.AtMost c) : a.AtMost c := by
  obtain ⟨o, ho, hle⟩ := h
  obtain ⟨o', ho', hle'⟩ := h'
  rw [compare?_eq_place] at ho ho'
  rw [AtMost, compare?_eq_place]
  exact Place.isLE_compare?_trans ho ho' hle hle'

theorem AtMost.antisymm (h : a.AtMost b) (h' : b.AtMost a) : a.compare? b = some .eq := by
  obtain ⟨o, ho, hle⟩ := h
  obtain ⟨o', ho', hle'⟩ := h'
  rw [← compare?_swap, ho] at ho'
  cases ho'
  cases o with
  | lt => cases hle'
  | eq => exact ho
  | gt => cases hle

theorem atMost_of_compare?_eq (h : a.compare? b = some .eq) : a.AtMost b := ⟨.eq, h, rfl⟩

/-- Of scalars that compare, the first is at most the second unless it is greater. -/
theorem Comparable.atMost_iff (h : a.Comparable b) : a.AtMost b ↔ a.compare? b ≠ some .gt := by
  obtain ⟨o, ho⟩ := Option.isSome_iff_exists.1 h
  rw [AtMost, ho]
  cases o <;> simp

theorem Comparable.atMost_iff_swap (h : a.Comparable b) :
    b.AtMost a ↔ a.compare? b ≠ some .lt := by
  obtain ⟨o, ho⟩ := Option.isSome_iff_exists.1 h
  rw [AtMost, ← compare?_swap, ho]
  cases o <;> simp

theorem Comparable.total (h : a.Comparable b) : a.AtMost b ∨ b.AtMost a := by
  rw [h.atMost_iff, h.atMost_iff_swap]
  by_cases hg : a.compare? b = some .gt
  · right
    simp [hg]
  · exact .inl hg

/-- **Comparing is a total preorder** on each class of scalars that compare: it is reflexive,
swapping the scalars swaps the outcome, comparing is an equivalence, being at most is transitive and
total where scalars compare, and equal scalars compare alike. -/
theorem compare?_preorder (a b c : Scalar) :
    a.compare? a = some .eq ∧
    b.compare? a = (a.compare? b).map Ordering.swap ∧
    (b.compare? a = none ↔ a.compare? b = none) ∧
    Equivalence Comparable ∧
    (a.AtMost b → b.AtMost c → a.AtMost c) ∧
    (a.Comparable b → a.AtMost b ∨ b.AtMost a) ∧
    (a.compare? b = some .eq → a.compare? c = b.compare? c) :=
  ⟨compare?_eq_some_eq_iff.2 rfl, (compare?_swap a b).symm, compare?_eq_none_comm,
    comparable_equivalence, AtMost.trans, Comparable.total, fun h => compare?_congr h c⟩

/-- Around 2^53: the double and the unsigned integer 2^53 are equal, so that both are less than the
integer after them, which no double is. -/
theorem compare?_preorder_two_pow_53 :
    let x := float ⟨0x4340000000000000⟩
    let m := uint 0x20000000000000
    let n := int 0x20000000000001
    x.compare? m = some .eq ∧ m.AtMost n ∧ x.compare? n = m.compare? n ∧ x.AtMost n := by
  intro x m n
  have hxm : x.compare? m = some .eq := by decide
  have hmn : m.AtMost n := ⟨.lt, by decide, rfl⟩
  obtain ⟨-, -, -, -, htrans, -, hcongr⟩ := compare?_preorder x m n
  exact ⟨hxm, hmn, hcongr hxm, htrans (atMost_of_compare?_eq hxm) hmn⟩

end Facet.Scalar
