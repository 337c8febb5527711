import Facet.Decimal.Comparison
import Mathlib.Algebra.Group.Nat.Defs
import Mathlib.Order.Compare
import Mathlib.Order.Monotone.Basic

/-!
# Comparing by rank

Every way to compare doubles and integers is the order of their ranks:

* `totalCompare_eq_compare_rank`: patterns one of which is no number. The magnitude grows with the
  integer of the bits but the sign (`strictMono_magnitudeOf`), so that the order of all patterns is
  that of ranks but for the zeros of either sign.
* `compareInt_eq_compare_rank`: an integer of 128 bits and a double. The whole part of a double is
  exact (`rank_trunc`), as is the integer of it unless that is beyond 128 bits (`toInt128_trunc`).
-/

set_option autoImplicit false

namespace Facet.Binary64

variable {x y : Binary64} {n : Int}

/-! ## Fields -/

theorem word_lt (x : Binary64) : x.word < 2 ^ 64 := x.bits.toNat_lt

theorem fractionField_lt (x : Binary64) : x.fractionField < 2 ^ 52 := Nat.mod_lt _ (by decide)

theorem exponentField_le (x : Binary64) : x.exponentField ≤ 2047 :=
  Nat.le_of_lt_succ (Nat.mod_lt _ (by decide))

theorem isNegative_iff : x.isNegative = true ↔ 2 ^ 63 ≤ x.word := by simp [isNegative]

theorem isFinite_iff : x.isFinite = true ↔ x.exponentField < 2047 := by simp [isFinite]

/-- The bits but the sign, as an integer. -/
def unsignedWord (x : Binary64) : Nat := x.word % 2 ^ 63

theorem unsignedWord_eq (x : Binary64) :
    x.unsignedWord = x.exponentField * 2 ^ 52 + x.fractionField := by
  unfold unsignedWord exponentField fractionField
  omega

theorem isNaN_iff : x.isNaN = true ↔ x.exponentField = 2047 ∧ 0 < x.fractionField := by
  simp [isNaN]

/-- The patterns that are no numbers are those after the infinities. -/
theorem isNaN_iff_lt : x.isNaN = true ↔ 2047 * 2 ^ 52 < x.unsignedWord := by
  have he := x.exponentField_le
  have hf := x.fractionField_lt
  rw [isNaN_iff, unsignedWord_eq]
  omega

/-! ## Magnitudes -/

/-- The magnitude of a pattern by the integer of its bits but the sign. -/
def magnitudeOf (n : Nat) : Nat :=
  (if n / 2 ^ 52 = 0 then n % 2 ^ 52 else 2 ^ 52 + n % 2 ^ 52) * 2 ^ (n / 2 ^ 52 - 1)

theorem magnitude_eq (x : Binary64) : x.magnitude = magnitudeOf x.unsignedWord := by
  have hf := x.fractionField_lt
  have he : x.unsignedWord / 2 ^ 52 = x.exponentField := by
    rw [unsignedWord_eq]
    omega
  have hf' : x.unsignedWord % 2 ^ 52 = x.fractionField := by
    rw [unsignedWord_eq]
    omega
  rw [magnitude, Nat.shiftLeft_eq, magnitudeOf, he, hf']
  rfl

theorem strictMono_magnitudeOf : StrictMono magnitudeOf := by
  refine strictMono_nat_of_lt_succ fun n => ?_
  unfold magnitudeOf
  by_cases hf : n % 2 ^ 52 = 2 ^ 52 - 1
  · -- the fraction starts anew, and the exponent is the next one
    have he : (n + 1) / 2 ^ 52 = n / 2 ^ 52 + 1 := by omega
    have hf' : (n + 1) % 2 ^ 52 = 0 := by omega
    rw [he, hf, hf', if_neg (Nat.succ_ne_zero _), Nat.add_sub_cancel, Nat.add_zero]
    cases n / 2 ^ 52 with
    | zero => decide
    | succ e =>
      rw [if_neg (Nat.succ_ne_zero e), Nat.add_sub_cancel, Nat.pow_succ' (n := e), ← Nat.mul_assoc]
      exact Nat.mul_lt_mul_of_pos_right (by decide) (Nat.two_pow_pos e)
  · have he : (n + 1) / 2 ^ 52 = n / 2 ^ 52 := by omega
    have hf' : (n + 1) % 2 ^ 52 = n % 2 ^ 52 + 1 := by omega
    rw [he, hf']
    refine Nat.mul_lt_mul_of_pos_right ?_ (Nat.two_pow_pos _)
    split <;> omega

theorem magnitude_lt_iff : x.magnitude < y.magnitude ↔ x.unsignedWord < y.unsignedWord := by
  rw [magnitude_eq, magnitude_eq, strictMono_magnitudeOf.lt_iff_lt]

theorem unsignedWord_of_nonneg (h : ¬x.isNegative = true) : x.unsignedWord = x.word := by
  rw [isNegative_iff] at h
  unfold unsignedWord
  omega

theorem unsignedWord_of_isNegative (h : x.isNegative = true) :
    x.unsignedWord = x.word - 2 ^ 63 := by
  have := x.word_lt
  rw [isNegative_iff] at h
  unfold unsignedWord
  omega

theorem rank_of_nonneg (h : ¬x.isNegative = true) : x.rank = x.magnitude := if_neg h

theorem rank_of_isNegative (h : x.isNegative = true) : x.rank = -x.magnitude := if_pos h

/-! ## The order of all patterns -/

theorem totalKey_of_nonneg (h : ¬x.isNegative = true) : x.totalKey = x.unsignedWord := by
  rw [totalKey, if_neg h, unsignedWord_of_nonneg h]

theorem totalKey_of_isNegative (h : x.isNegative = true) : x.totalKey = -1 - x.unsignedWord := by
  rw [totalKey, if_pos h, unsignedWord_of_isNegative h]
  have := isNegative_iff.1 h
  omega

/-- Unless two patterns are zeros, they are in the same order by key and by rank. -/
theorem totalKey_lt_iff (h : 0 < x.magnitude ∨ 0 < y.magnitude) :
    x.totalKey < y.totalKey ↔ x.rank < y.rank := by
  have hxy := magnitude_lt_iff (x := x) (y := y)
  have hyx := magnitude_lt_iff (x := y) (y := x)
  by_cases hx : x.isNegative = true <;> by_cases hy : y.isNegative = true
  · rw [totalKey_of_isNegative hx, totalKey_of_isNegative hy, rank_of_isNegative hx,
      rank_of_isNegative hy]
    omega
  · rw [totalKey_of_isNegative hx, totalKey_of_nonneg hy, rank_of_isNegative hx, rank_of_nonneg hy]
    omega
  · rw [totalKey_of_nonneg hx, totalKey_of_isNegative hy, rank_of_nonneg hx, rank_of_isNegative hy]
    omega
  · rw [totalKey_of_nonneg hx, totalKey_of_nonneg hy, rank_of_nonneg hx, rank_of_nonneg hy]
    omega

theorem compare_congr {a b c d : Int} (h : a < b ↔ c < d) (h' : b < a ↔ d < c) :
    compare a b = compare c d := by
  rcases lt_trichotomy c d with hc | hc | hc
  · rw [compare_lt_iff_lt.2 hc, compare_lt_iff_lt.2 (h.2 hc)]
  · rw [compare_eq_iff_eq.2 hc, compare_eq_iff_eq]
    omega
  · rw [compare_gt_iff_gt.2 hc, compare_gt_iff_gt.2 (h'.2 hc)]

theorem magnitude_pos_of_isNaN (h : x.isNaN = true) : 0 < x.magnitude := by
  rw [isNaN_iff_lt] at h
  rw [magnitude_eq]
  exact strictMono_magnitudeOf (a := 0) (by omega)

/-- A pattern that is no number compares by rank with any other. -/
theorem totalCompare_eq_compare_rank (h : (x.isNaN || y.isNaN) = true) :
    x.totalCompare y = compare x.rank y.rank := by
  have hpos : 0 < x.magnitude ∨ 0 < y.magnitude :=
    (Bool.or_eq_true _ _ ▸ h).imp magnitude_pos_of_isNaN magnitude_pos_of_isNaN
  exact compare_congr (totalKey_lt_iff hpos) (totalKey_lt_iff hpos.symm)

/-! ## Whole parts -/

section
variable {m k : Nat}

theorem clear_div (n : Nat) (h : k ≤ m) : n / 2 ^ k * 2 ^ k / 2 ^ m = n / 2 ^ m := by
  obtain ⟨d, rfl⟩ := Nat.exists_eq_add_of_le' h
  rw [Nat.pow_add, Nat.mul_div_mul_right _ _ (Nat.two_pow_pos k), Nat.div_div_eq_div_mul,
    Nat.mul_comm (2 ^ k)]

theorem clear_mod (n : Nat) (h : k ≤ m) :
    n / 2 ^ k * 2 ^ k % 2 ^ m = n % 2 ^ m / 2 ^ k * 2 ^ k := by
  obtain ⟨d, rfl⟩ := Nat.exists_eq_add_of_le' h
  rw [Nat.pow_add, Nat.mul_mod_mul_right, Nat.mul_comm (2 ^ d), Nat.mod_mul_right_div_self]

theorem add_clear (n : Nat) (h : k ≤ m) :
    2 ^ m + n / 2 ^ k * 2 ^ k = (2 ^ m + n) / 2 ^ k * 2 ^ k := by
  obtain ⟨d, rfl⟩ := Nat.exists_eq_add_of_le' h
  rw [Nat.pow_add, ← Nat.add_mul, Nat.mul_comm (2 ^ d), Nat.mul_add_div (Nat.two_pow_pos k)]

end

theorem bitsAfterPoint_le (x : Binary64) : x.bitsAfterPoint ≤ 63 := by
  unfold bitsAfterPoint
  split <;> omega

theorem word_trunc (x : Binary64) :
    x.trunc.word = x.word / 2 ^ x.bitsAfterPoint * 2 ^ x.bitsAfterPoint := by
  have hb := x.bitsAfterPoint_le
  have hmod : (UInt64.ofNat x.bitsAfterPoint).toNat % 64 = x.bitsAfterPoint := by
    rw [UInt64.toNat_ofNat']
    omega
  have hw : x.word / 2 ^ x.bitsAfterPoint * 2 ^ x.bitsAfterPoint < 2 ^ 64 :=
    Nat.lt_of_le_of_lt (Nat.div_mul_le_self _ _) x.word_lt
  rw [← Nat.mod_eq_of_lt hw, ← Nat.shiftLeft_eq, ← Nat.shiftRight_eq_div_pow]
  simp only [trunc, word, UInt64.toNat_shiftLeft, UInt64.toNat_shiftRight, hmod]

theorem isNegative_trunc (x : Binary64) : x.trunc.isNegative = x.isNegative := by
  have h := clear_div x.word x.bitsAfterPoint_le
  rw [← word_trunc] at h
  rw [Bool.eq_iff_iff, isNegative_iff, isNegative_iff]
  omega

theorem unsignedWord_trunc (x : Binary64) :
    x.trunc.unsignedWord = x.unsignedWord / 2 ^ x.bitsAfterPoint * 2 ^ x.bitsAfterPoint := by
  rw [unsignedWord, word_trunc, clear_mod _ x.bitsAfterPoint_le, unsignedWord]

theorem bitsAfterPoint_of_one_le (h : 0x3FF ≤ x.exponentField) :
    x.bitsAfterPoint = 0x433 - x.exponentField := if_neg (by omega)

/-- The rank of one. -/
def unitsOfOne : Nat := 1 <<< 1074

theorem unitsOfOne_eq {i k : Nat} (h : k + i = 1074) : unitsOfOne = 2 ^ k * 2 ^ i := by
  rw [unitsOfOne, Nat.one_shiftLeft, ← Nat.pow_add, h]

theorem unitsOfOne_pos : 0 < unitsOfOne := by decide

theorem magnitude_lt_unitsOfOne (h : x.exponentField < 0x3FF) : x.magnitude < unitsOfOne := by
  have hone : magnitude ⟨0x3FF0000000000000⟩ = unitsOfOne := by decide
  have hword : unsignedWord ⟨0x3FF0000000000000⟩ = 0x3FF * 2 ^ 52 := by decide
  have hf := x.fractionField_lt
  rw [← hone, magnitude_lt_iff, hword, unsignedWord_eq]
  omega

/-- The magnitude of the whole part is that of the double without what is less than one. -/
theorem magnitude_trunc (x : Binary64) :
    x.trunc.magnitude = x.magnitude / unitsOfOne * unitsOfOne := by
  have hf := x.fractionField_lt
  have hn := x.unsignedWord_eq
  by_cases he : x.exponentField < 0x3FF
  · rw [Nat.div_eq_of_lt (magnitude_lt_unitsOfOne he), Nat.zero_mul, magnitude_eq,
      unsignedWord_trunc, bitsAfterPoint, if_pos he, Nat.div_eq_of_lt (by omega), Nat.zero_mul]
    rfl
  · have hk := bitsAfterPoint_of_one_le (Nat.le_of_not_lt he)
    have hk52 : x.bitsAfterPoint ≤ 52 := by omega
    have hne : x.unsignedWord / 2 ^ 52 ≠ 0 := by omega
    have hexp : x.unsignedWord / 2 ^ 52 = x.exponentField := by omega
    rw [magnitude_eq, magnitude_eq, unsignedWord_trunc]
    unfold magnitudeOf
    rw [clear_div _ hk52, clear_mod _ hk52, if_neg hne, if_neg hne, add_clear _ hk52, hexp]
    generalize 2 ^ 52 + x.unsignedWord % 2 ^ 52 = s
    by_cases hle : x.exponentField ≤ 0x433
    · rw [unitsOfOne_eq (show x.bitsAfterPoint + (x.exponentField - 1) = 1074 by omega),
        Nat.mul_div_mul_right _ _ (Nat.two_pow_pos _), Nat.mul_assoc]
    · -- all bits of the fraction stand for digits before the point
      obtain ⟨d, hd⟩ := Nat.exists_eq_add_of_le' (show 1074 ≤ x.exponentField - 1 by omega)
      have hk0 : x.bitsAfterPoint = 0 := by omega
      have hone : 2 ^ (x.exponentField - 1) = 2 ^ d * unitsOfOne := by
        rw [hd, Nat.pow_add, unitsOfOne, Nat.one_shiftLeft]
      rw [hk0, hone, Nat.pow_zero, Nat.div_one, Nat.mul_one, ← Nat.mul_assoc,
        Nat.mul_div_cancel _ unitsOfOne_pos]

theorem rankOfInt_one : rankOfInt 1 = unitsOfOne := Int.one_mul _

theorem rankOfInt_eq_mul (n : Int) : rankOfInt n = n * rankOfInt 1 := by
  rw [rankOfInt_one]
  rfl

theorem rankOfInt_one_pos : 0 < rankOfInt 1 := by
  rw [rankOfInt_one]
  exact Int.natCast_pos.2 unitsOfOne_pos

/-- The whole part of a double is exact, and towards zero. -/
theorem rank_trunc (x : Binary64) : x.trunc.rank = x.rank.tdiv (rankOfInt 1) * rankOfInt 1 := by
  rw [rank, rank, isNegative_trunc, magnitude_trunc, rankOfInt_one]
  split
  · rw [Int.neg_tdiv, ← Int.ofNat_tdiv, Int.neg_mul, ← Int.natCast_mul]
  · rw [← Int.ofNat_tdiv, ← Int.natCast_mul]

theorem not_isNaN_trunc (h : ¬x.isNaN = true) : ¬x.trunc.isNaN = true := by
  rw [isNaN_iff_lt] at h ⊢
  have := Nat.div_mul_le_self x.unsignedWord (2 ^ x.bitsAfterPoint)
  rw [unsignedWord_trunc]
  omega

section
variable {r u b : Int}

theorem tdiv_fits (hu : 0 < u) (hlo : -b * u ≤ r) (hhi : r < b * u) :
    -b ≤ r.tdiv u ∧ r.tdiv u < b := by
  constructor
  · rw [← Int.mul_tdiv_cancel (-b) (Int.ne_of_gt hu)]
    exact Int.tdiv_le_tdiv hu hlo
  · rcases lt_or_ge r 0 with hr | hr
    · have hq : r.tdiv u ≤ 0 := by
        rw [← Int.zero_tdiv u]
        exact Int.tdiv_le_tdiv hu (Int.le_of_lt hr)
      have hb : 0 < b := by
        by_contra hb
        have := Int.mul_le_mul_of_nonneg_right (show b ≤ -b by omega) (Int.le_of_lt hu)
        omega
      omega
    · rw [Int.tdiv_eq_ediv_of_nonneg hr]
      exact Int.ediv_lt_of_lt_mul hu hhi

/-- An integer compares with a quotient as with its whole part, unless these two are equal. -/
theorem compare_mul_eq (hu : 0 < u) (n r : Int) :
    compare (n * u) r = (compare n (r.tdiv u)).then (compare (r.tdiv u * u) r) := by
  have hr := Int.tdiv_mul_add_tmod r u
  have hlt := Int.tmod_lt_of_pos r hu
  have hgt := Int.lt_tmod_of_pos r hu
  rcases lt_trichotomy n (r.tdiv u) with h | h | h
  · have hle := Int.mul_le_mul_of_nonneg_right (show n + 1 ≤ r.tdiv u by omega) (Int.le_of_lt hu)
    rw [Int.add_mul, Int.one_mul] at hle
    rw [compare_lt_iff_lt.2 h, Ordering.lt_then, compare_lt_iff_lt]
    omega
  · rw [compare_eq_iff_eq.2 h, Ordering.eq_then, h]
  · have hle := Int.mul_le_mul_of_nonneg_right (show r.tdiv u + 1 ≤ n by omega) (Int.le_of_lt hu)
    rw [Int.add_mul, Int.one_mul] at hle
    rw [compare_gt_iff_gt.2 h, Ordering.gt_then, compare_gt_iff_gt]
    omega

end

/-- The integer of a whole part is exact unless it is beyond 128 bits. -/
theorem toInt128_trunc (h : ¬x.isNaN = true) (hlo : rankOfInt (-int128Bound) ≤ x.rank)
    (hhi : x.rank < rankOfInt int128Bound) : x.trunc.toInt128 = x.rank.tdiv (rankOfInt 1) := by
  rw [rankOfInt_eq_mul] at hlo hhi
  obtain ⟨hq, hq'⟩ := tdiv_fits rankOfInt_one_pos hlo hhi
  rw [toInt128, if_neg (not_isNaN_trunc h), rank_trunc,
    Int.mul_tdiv_cancel _ (Int.ne_of_gt rankOfInt_one_pos)]
  omega

/-! ## Integers and doubles -/

theorem compare?_of_not_isNaN (hx : ¬x.isNaN = true) (hy : ¬y.isNaN = true) :
    x.compare? y = some (compare x.rank y.rank) := by
  rw [compare?, if_neg (by simp [hx, hy])]

theorem isLess_iff (hx : ¬x.isNaN = true) (hy : ¬y.isNaN = true) :
    x.isLess y = true ↔ x.rank < y.rank := by
  simp [isLess, compare?_of_not_isNaN hx hy, compare_lt_iff_lt]

theorem isAtMost_iff (hx : ¬x.isNaN = true) (hy : ¬y.isNaN = true) :
    x.isAtMost y = true ↔ x.rank ≤ y.rank := by
  simp [isAtMost, compare?_of_not_isNaN hx hy, compare_lt_iff_lt, le_iff_lt_or_eq]

/-- A double is compared with its whole part by two tests. -/
theorem compare_rank_trunc (h : ¬x.isNaN = true) :
    (if x.trunc.isLess x then .lt else if x.isLess x.trunc then .gt else .eq) =
      compare x.trunc.rank x.rank := by
  simp only [isLess_iff (not_isNaN_trunc h) h, isLess_iff h (not_isNaN_trunc h)]
  rcases lt_trichotomy x.trunc.rank x.rank with hr | hr | hr
  · rw [if_pos hr, compare_lt_iff_lt.2 hr]
  · rw [if_neg (by omega), if_neg (by omega), compare_eq_iff_eq.2 hr]
  · rw [if_neg (by omega), if_pos hr, compare_gt_iff_gt.2 hr]

theorem rankOfInt_lt_iff {m n : Int} : rankOfInt m < rankOfInt n ↔ m < n := by
  rw [rankOfInt_eq_mul, rankOfInt_eq_mul n]
  exact Int.mul_lt_mul_right rankOfInt_one_pos

theorem rank_int128Limit : int128Limit.rank = rankOfInt int128Bound := by decide

theorem rank_int128Least : int128Least.rank = rankOfInt (-int128Bound) := by decide

/-- A pattern that is no number is beyond all integers of 128 bits, on the side of its sign. -/
theorem compare_rankOfInt_of_isNaN (h : x.isNaN = true) (hlo : -int128Bound ≤ n)
    (hhi : n < int128Bound) :
    compare (rankOfInt n) x.rank = if x.isNegative then .gt else .lt := by
  have hmag : int128Limit.magnitude < x.magnitude := by
    have hword : int128Limit.unsignedWord ≤ 2047 * 2 ^ 52 := by decide
    rw [magnitude_lt_iff]
    exact Nat.lt_of_le_of_lt hword (isNaN_iff_lt.1 h)
  have hlimit : (int128Limit.magnitude : Int) = rankOfInt int128Bound := by decide
  have hn : rankOfInt n < rankOfInt int128Bound := rankOfInt_lt_iff.2 hhi
  have hn' : ¬rankOfInt n < rankOfInt (-int128Bound) := by
    rw [rankOfInt_lt_iff]
    omega
  have hneg : rankOfInt (-int128Bound) = -rankOfInt int128Bound := by decide
  by_cases hs : x.isNegative = true
  · rw [if_pos hs, compare_gt_iff_gt, rank_of_isNegative hs]
    omega
  · rw [if_neg hs, compare_lt_iff_lt, rank_of_nonneg hs]
    omega

/-- An integer of 128 bits compares by rank with any pattern. -/
theorem compareInt_eq_compare_rank (hlo : -int128Bound ≤ n) (hhi : n < int128Bound) :
    compareInt n x = compare (rankOfInt n) x.rank := by
  by_cases hx : x.isNaN = true
  · rw [compareInt, if_pos hx, compare_rankOfInt_of_isNaN hx hlo hhi]
  rw [compareInt, if_neg hx]
  by_cases hge : int128Limit.isAtMost x = true
  · rw [if_pos hge, eq_comm, compare_lt_iff_lt]
    rw [isAtMost_iff (by decide) hx, rank_int128Limit] at hge
    exact Int.lt_of_lt_of_le (rankOfInt_lt_iff.2 hhi) hge
  rw [if_neg hge]
  rw [isAtMost_iff (by decide) hx, rank_int128Limit, Int.not_le] at hge
  by_cases hlt : x.isLess int128Least = true
  · rw [if_pos hlt, eq_comm, compare_gt_iff_gt]
    rw [isLess_iff hx (by decide), rank_int128Least] at hlt
    refine Int.lt_of_lt_of_le hlt (Int.not_lt.1 ?_)
    rw [rankOfInt_lt_iff]
    omega
  rw [if_neg hlt]
  rw [isLess_iff hx (by decide), rank_int128Least, Int.not_lt] at hlt
  -- the double is within the integers of 128 bits, so that its whole part is one of them
  rw [rankOfInt_eq_mul n, compare_mul_eq rankOfInt_one_pos, ← rank_trunc,
    ← toInt128_trunc hx hlt hge, ← compare_rank_trunc hx]

end Facet.Binary64
