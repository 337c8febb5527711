import Facet.Proofs.Scalar
import Mathlib.Algebra.Order.Field.Power
import Mathlib.Data.Int.ConditionallyCompleteOrder
import Mathlib.Data.Rat.Cast.Order
import Mathlib.Order.WithBot
import Mathlib.Tactic.GCongr
import Mathlib.Tactic.Linarith
import Mathlib.Tactic.NormNum
import Mathlib.Tactic.Positivity
import Mathlib.Tactic.Ring

/-!
# Numbers by their exact values

A number stands for a rational number or an infinity (`Scalar.value?`): an integer for itself, a
double for what its sign, exponent and fraction spell. A rank is that value counted in units of
2^-1074, and the ranks of the infinities are at ±2^1024, beyond those of all finite numbers;
`valueAt` leads from ranks back to values and is strictly monotone (`strictMonoOn_valueAt`). So
numbers compare by value, whatever they are written as, and a pattern that is no number stands
beyond both infinities, on the side of its sign (`compare?_by_value`).
-/

set_option autoImplicit false

namespace Facet

/-- A rational number or an infinity. -/
abbrev ExtendedRat := WithBot (WithTop ℚ)

/-- A rational number among the extended ones. -/
def ExtendedRat.finite (q : ℚ) : ExtendedRat := WithBot.some (WithTop.some q)

theorem ExtendedRat.finite_lt_finite {p q : ℚ} : finite p < finite q ↔ p < q := by
  rw [finite, finite, WithBot.coe_lt_coe, WithTop.coe_lt_coe]

theorem ExtendedRat.bot_lt_finite (q : ℚ) : ⊥ < finite q := WithBot.bot_lt_coe _

theorem ExtendedRat.finite_lt_top (q : ℚ) : finite q < ⊤ :=
  WithBot.coe_lt_coe.2 (WithTop.coe_lt_top q)

/-- One unit of ranks. -/
def rankUnit : ℚ := 2 ^ (-1074 : Int)

/-- The least power of two that is too great for a finite double. -/
def overflow : ℚ := 2 ^ (1024 : Int)

theorem rankUnit_pos : 0 < rankUnit := zpow_pos two_pos _

theorem overflow_pos : 0 < overflow := zpow_pos two_pos _

theorem cast_shiftLeft (m k : Nat) : ((m <<< k : Nat) : ℚ) = m * 2 ^ (k : Int) := by
  rw [Nat.shiftLeft_eq, Nat.cast_mul, Nat.cast_pow, Nat.cast_ofNat, zpow_natCast]

/-! ## What a pattern stands for -/

namespace Binary64

variable {x : Binary64}

/-- The magnitude that the exponent and the fraction spell: a one stands before the fraction unless
the exponent is the least. The all-ones exponent is read like any other. -/
def spelled (x : Binary64) : ℚ :=
  if x.exponentField = 0 then x.fractionField / 2 ^ 52 * 2 ^ (-1022 : Int)
  else (1 + x.fractionField / 2 ^ 52) * 2 ^ ((x.exponentField : Int) - 1023)

/-- What the pattern stands for, unless it stands for no number. -/
def value? (x : Binary64) : Option ExtendedRat :=
  if x.isNaN then none
  else if x.isFinite then
    some (.finite (if x.isNegative then -x.spelled else x.spelled))
  else some (if x.isNegative then ⊥ else ⊤)

theorem spelled_nonneg (x : Binary64) : 0 ≤ x.spelled := by
  unfold spelled
  split <;> positivity

theorem spelled_lt (h : x.isFinite = true) : x.spelled < overflow := by
  have hf : (x.fractionField : ℚ) / 2 ^ 52 < 1 := by
    rw [div_lt_one (by positivity)]
    exact_mod_cast x.fractionField_lt
  have he := isFinite_iff.1 h
  unfold spelled overflow
  split
  · calc
      (x.fractionField : ℚ) / 2 ^ 52 * 2 ^ (-1022 : Int) < 1 * 2 ^ (-1022 : Int) := by gcongr
      _ = 2 ^ (-1022 : Int) := one_mul _
      _ ≤ 2 ^ (1024 : Int) := zpow_le_zpow_right₀ one_le_two (by omega)
  · calc
      (1 + (x.fractionField : ℚ) / 2 ^ 52) * 2 ^ ((x.exponentField : Int) - 1023)
          < (1 + 1) * 2 ^ ((x.exponentField : Int) - 1023) := by gcongr
      _ = 2 ^ (1 + ((x.exponentField : Int) - 1023)) := by
        rw [zpow_add₀ two_ne_zero, zpow_one, one_add_one_eq_two]
      _ ≤ 2 ^ (1024 : Int) := zpow_le_zpow_right₀ one_le_two (by omega)

theorem spelled_of_not_finite (h : ¬x.isFinite = true) :
    x.spelled = (1 + x.fractionField / 2 ^ 52) * overflow := by
  have he : x.exponentField = 2047 := by
    have hle := x.exponentField_le
    rw [isFinite_iff] at h
    omega
  rw [spelled, he, if_neg (by decide)]
  rfl

theorem spelled_of_infinite (h : ¬x.isFinite = true) (hn : ¬x.isNaN = true) :
    x.spelled = overflow := by
  have hf : x.fractionField = 0 := by
    have hle := x.exponentField_le
    rw [isFinite_iff] at h
    rw [isNaN_iff] at hn
    omega
  rw [spelled_of_not_finite h, hf, Nat.cast_zero, zero_div, add_zero, one_mul]

theorem overflow_lt_spelled (hn : x.isNaN = true) : overflow < x.spelled := by
  obtain ⟨he, hf⟩ := isNaN_iff.1 hn
  have hinf : ¬x.isFinite = true := by
    rw [isFinite_iff]
    omega
  have hpos : (0 : ℚ) < x.fractionField / 2 ^ 52 := by positivity
  rw [spelled_of_not_finite hinf]
  exact lt_mul_of_one_lt_left overflow_pos (by linarith)

/-! ## Ranks count units -/

theorem magnitude_cast (x : Binary64) : (x.magnitude : ℚ) * rankUnit = x.spelled := by
  rw [magnitude, cast_shiftLeft, rankUnit, mul_assoc, ← zpow_add₀ two_ne_zero]
  unfold spelled significand scale
  split
  · next he =>
    have h : ((2 : ℚ) ^ 52)⁻¹ * 2 ^ (-1022 : Int) = 2 ^ (-1074 : Int) := by
      rw [← zpow_natCast, ← zpow_neg, ← zpow_add₀ two_ne_zero]
      rfl
    rw [he, div_eq_mul_inv, mul_assoc, h]
    rfl
  · next he =>
    have hscale : ((x.exponentField - 1 : Nat) : Int) = x.exponentField - 1 := by omega
    have hsplit : (x.exponentField : Int) - 1023 = 52 + (x.exponentField - 1 + -1074) := by ring
    rw [hscale, hsplit, zpow_add₀ (two_ne_zero (α := ℚ)) 52, ← mul_assoc]
    congr 1
    push_cast
    norm_num
    ring

theorem rank_cast (x : Binary64) :
    (x.rank : ℚ) * rankUnit = if x.isNegative then -x.spelled else x.spelled := by
  rw [← magnitude_cast, rank]
  split <;> simp

theorem abs_rank_cast (x : Binary64) : |(x.rank : ℚ) * rankUnit| = x.spelled := by
  rw [rank_cast]
  split
  · rw [abs_neg, abs_of_nonneg x.spelled_nonneg]
  · exact abs_of_nonneg x.spelled_nonneg

theorem rankOfInt_cast (n : Int) : (rankOfInt n : ℚ) * rankUnit = n := by
  have hunit : ((1 <<< 1074 : Nat) : ℚ) * rankUnit = 1 := by
    rw [cast_shiftLeft, rankUnit, Nat.cast_one, one_mul, ← zpow_add₀ two_ne_zero]
    exact zpow_zero 2
  rw [rankOfInt, Int.cast_mul, Int.cast_natCast, mul_assoc, hunit, mul_one]

end Binary64

/-! ## Values at ranks -/

/-- The ranks of numbers: from that of negative infinity to that of positive infinity. -/
def numberRanks : Set Int := {r | |(r : ℚ) * rankUnit| ≤ overflow}

/-- The value of the numbers at a rank. -/
def valueAt (r : Int) : ExtendedRat :=
  if (r : ℚ) * rankUnit ≤ -overflow then ⊥
  else if overflow ≤ (r : ℚ) * rankUnit then ⊤
  else .finite (r * rankUnit)

theorem rank_lt_iff {r s : Int} : (r : ℚ) * rankUnit < s * rankUnit ↔ r < s := by
  rw [mul_lt_mul_iff_left₀ rankUnit_pos, Int.cast_lt]

theorem strictMonoOn_valueAt : StrictMonoOn valueAt numberRanks := by
  intro r hr s hs hrs
  have hq : (r : ℚ) * rankUnit < s * rankUnit := rank_lt_iff.2 hrs
  obtain ⟨hr1, hr2⟩ : -overflow ≤ (r : ℚ) * rankUnit ∧ _ := abs_le.1 hr
  obtain ⟨hs1, hs2⟩ : -overflow ≤ (s : ℚ) * rankUnit ∧ _ := abs_le.1 hs
  -- the lower rank is not that of positive infinity, nor the higher one that of negative infinity
  rw [valueAt, valueAt, if_neg (not_le.2 (lt_of_lt_of_le hq hs2)),
    if_neg (not_le.2 (lt_of_le_of_lt hr1 hq))]
  split
  · split
    · exact bot_lt_top
    · exact ExtendedRat.bot_lt_finite _
  · split
    · exact ExtendedRat.finite_lt_top _
    · exact ExtendedRat.finite_lt_finite.2 hq

theorem valueAt_of_lt {r : Int} (h : |(r : ℚ) * rankUnit| < overflow) :
    valueAt r = .finite (r * rankUnit) := by
  obtain ⟨h1, h2⟩ := abs_lt.1 h
  rw [valueAt, if_neg (not_le.2 h1), if_neg (not_le.2 h2)]

/-! ## Scalars -/

namespace Scalar

/-- The exact value of a number. -/
def value? : Scalar → Option ExtendedRat
  | .int i => some (.finite i.toInt)
  | .uint u => some (.finite u.toNat)
  | .float x => x.value?
  | .null | .bool _ | .string _ => none

/-- The rank is that of a number of the value. -/
def RankOf (v : ExtendedRat) (r : Int) : Prop := r ∈ numberRanks ∧ valueAt r = v

theorem rankOf_rankOfInt {n : Int} (h : n.natAbs ≤ 2 ^ 64) :
    RankOf (.finite n) (Binary64.rankOfInt n) := by
  have hlt : |(n : ℚ)| < overflow := by
    calc
      |(n : ℚ)| = (n.natAbs : ℚ) := by rw [Nat.cast_natAbs, Int.cast_abs]
      _ ≤ (2 : ℚ) ^ (64 : Int) := by exact_mod_cast h
      _ < overflow := zpow_lt_zpow_right₀ one_lt_two (by omega)
  rw [← Binary64.rankOfInt_cast n] at hlt ⊢
  exact ⟨hlt.le, valueAt_of_lt hlt⟩

theorem rankOf_rank {x : Binary64} {v : ExtendedRat} (h : x.value? = some v) :
    RankOf v x.rank := by
  unfold Binary64.value? at h
  split at h
  · cases h
  · next hn =>
    split at h
    · next hf =>
      have hlt : |(x.rank : ℚ) * rankUnit| < overflow := by
        rw [x.abs_rank_cast]
        exact Binary64.spelled_lt hf
      rw [← x.rank_cast] at h
      cases h
      exact ⟨hlt.le, valueAt_of_lt hlt⟩
    · next hf =>
      have hinf := Binary64.spelled_of_infinite hf hn
      cases h
      refine ⟨(x.abs_rank_cast.trans hinf).le, ?_⟩
      rw [valueAt, x.rank_cast, hinf]
      by_cases hneg : x.isNegative = true
      · rw [if_pos hneg, if_pos hneg, if_pos le_rfl]
      · have hpos : ¬overflow ≤ -overflow := by linarith [overflow_pos]
        rw [if_neg hneg, if_neg hneg, if_neg hpos, if_pos le_rfl]

/-- A number stands among all numbers at the rank of its value. -/
theorem exists_place_of_value? {a : Scalar} {v : ExtendedRat} (h : a.value? = some v) :
    ∃ r, a.place = .number r ∧ RankOf v r := by
  cases a with
  | null => cases h
  | bool b => cases h
  | string s => cases h
  | float x => exact ⟨_, rfl, rankOf_rank h⟩
  | int i =>
    cases h
    have := i.le_toInt
    have := i.toInt_lt
    exact ⟨_, rfl, rankOf_rankOfInt (by omega)⟩
  | uint u =>
    cases h
    have := u.toNat_lt
    exact ⟨_, rfl, rankOf_rankOfInt (n := u.toNat) (by omega)⟩

theorem compare?_of_place {a b : Scalar} {m n : Int} (ha : a.place = .number m)
    (hb : b.place = .number n) : a.compare? b = some (compare m n) := by
  rw [compare?_eq_place, ha, hb]
  rfl

theorem cmp_of_rankOf {v w : ExtendedRat} {m n : Int} (hm : RankOf v m) (hn : RankOf w n) :
    cmp v w = compare m n := by
  rw [← hm.2, ← hn.2, strictMonoOn_valueAt.cmp_map_eq hm.1 hn.1, cmp_eq_compare]

/-- The rank of a pattern that is no number is beyond those of numbers, on the side of its sign. -/
theorem compare_rank_of_isNaN {x : Binary64} {r : Int} (hx : x.isNaN = true)
    (hr : r ∈ numberRanks) : compare x.rank r = if x.isNegative then .lt else .gt := by
  have hrank := x.rank_cast
  have hlt := Binary64.overflow_lt_spelled hx
  obtain ⟨h1, h2⟩ : -overflow ≤ (r : ℚ) * rankUnit ∧ _ := abs_le.1 hr
  split at hrank
  · next hneg =>
    rw [if_pos hneg, compare_lt_iff_lt, ← rank_lt_iff, hrank]
    linarith
  · next hneg =>
    rw [if_neg hneg, compare_gt_iff_gt, ← rank_lt_iff, hrank]
    linarith

/-- **Numbers compare by exact value**, across integers and doubles; a pattern that is no number is
greater than every number, or less than every number if its sign bit is set. -/
theorem compare?_by_value {b : Scalar} {w : ExtendedRat} (hb : b.value? = some w) :
    (∀ (a : Scalar) (v : ExtendedRat), a.value? = some v → a.compare? b = some (cmp v w)) ∧
    ∀ x : Binary64, x.isNaN = true →
      (float x).compare? b = some (if x.isNegative then .lt else .gt) ∧
      b.compare? (float x) = some (if x.isNegative then .gt else .lt) := by
  obtain ⟨n, hn, hw⟩ := exists_place_of_value? hb
  refine ⟨fun a v ha => ?_, fun x hx => ?_⟩
  · obtain ⟨m, hm, hv⟩ := exists_place_of_value? ha
    rw [compare?_of_place hm hn, cmp_of_rankOf hv hw]
  · have hc : (float x).compare? b = some (if x.isNegative then .lt else .gt) := by
      rw [compare?_of_place rfl hn, compare_rank_of_isNaN hx hw.1]
    refine ⟨hc, ?_⟩
    rw [← compare?_swap, hc]
    split <;> rfl

/-- The integer after 2^53 is greater than the double 2^53, as are patterns that are no number
unless their sign bit is set. -/
theorem compare?_by_value_two_pow_53 :
    let b := float ⟨0x4340000000000000⟩
    let a := int 0x20000000000001
    let x : Binary64 := ⟨0x7FF8000000000000⟩
    let y : Binary64 := ⟨0xFFF0000000000001⟩
    b.value? = some (.finite 9007199254740992) ∧
    a.value? = some (.finite 9007199254740993) ∧
    a.compare? b = some .gt ∧
    x.isNaN = true ∧ (float x).compare? b = some .gt ∧
    y.isNaN = true ∧ (float y).compare? b = some .lt := by
  intro b a x y
  have hb : b.value? = some (.finite 9007199254740992) := by
    have he : Binary64.exponentField ⟨0x4340000000000000⟩ = 1076 := by decide
    have hf : Binary64.fractionField ⟨0x4340000000000000⟩ = 0 := by decide
    have hs : Binary64.spelled ⟨0x4340000000000000⟩ = 9007199254740992 := by
      rw [Binary64.spelled, he, hf]
      norm_num
    rw [value?, Binary64.value?, if_neg (by decide), if_pos (by decide), if_neg (by decide), hs]
  have ha : a.value? = some (.finite 9007199254740993) := rfl
  have hx : x.isNaN = true := by decide
  have hy : y.isNaN = true := by decide
  obtain ⟨hnumber, hnan⟩ := compare?_by_value hb
  refine ⟨hb, ha, ?_, hx, (hnan x hx).1, hy, (hnan y hy).1⟩
  rw [hnumber a _ ha, (cmp_eq_gt_iff _ _).2]
  exact ExtendedRat.finite_lt_finite.2 (by norm_num)

end Scalar

end Facet
