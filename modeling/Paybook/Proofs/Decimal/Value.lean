import Mathlib.Algebra.Order.Field.Rat
import Mathlib.Algebra.Order.Ring.Abs
import Mathlib.Tactic.FieldSimp
import Mathlib.Tactic.Linarith
import Mathlib.Tactic.Positivity
import Mathlib.Tactic.Ring
import Paybook.Decimal.Arithmetic

/-! # The values of decimals

A decimal stands for the rational number `toRat`. Comparison is comparison of values. A sum is the
exact one as long as both numbers and their sum are whole multiples of one unit `10 ^ (-S)` and
the sum, counted in that unit, fits the magnitude: `add?_exact`. -/

namespace Paybook.Decimal

open Text

/-- The number that a decimal stands for. -/
def toRat (d : Decimal) : ℚ := d.mantissa / 10 ^ d.scale

@[simp] theorem toRat_zero : zero.toRat = 0 := by simp [toRat]

@[simp] theorem toRat_ofWord (w : UInt64) : (ofWord w).toRat = w.toNat := by simp [toRat]

@[simp] theorem toRat_neg (d : Decimal) : d.neg.toRat = -d.toRat := by
  simp [toRat, neg_div]

@[simp] theorem cast_tenTo (n : Nat) : ((tenTo n : Nat) : ℚ) = 10 ^ n := by
  change ((10 ^ n : Nat) : ℚ) = 10 ^ n
  norm_num

theorem toRat_eq_zero {d : Decimal} (h : d.magnitude = 0) : d.toRat = 0 := by
  have : d.mantissa = 0 := by rw [← Int.natAbs_eq_zero, natAbs_mantissa, h]
  simp [toRat, this]

/-- The order of decimals is the order of their values. -/
theorem le_iff_toRat {a b : Decimal} : a ≤ b ↔ a.toRat ≤ b.toRat := by
  rw [le_def, across, across, toRat, toRat, div_le_div_iff₀ (by positivity) (by positivity),
    ← cast_tenTo, ← cast_tenTo, ← Int.cast_natCast (R := ℚ), ← Int.cast_natCast (R := ℚ)]
  exact_mod_cast Iff.rfl

theorem isPositive_iff {d : Decimal} : d.IsPositive ↔ 0 < d.toRat := by
  rw [IsPositive, toRat, div_pos_iff_of_pos_right (by positivity)]
  exact_mod_cast Iff.rfl

theorem IsPositive.magnitude_ne_zero {d : Decimal} (h : d.IsPositive) : d.magnitude ≠ 0 := by
  intro h0
  have hpos := isPositive_iff.1 h
  rw [toRat_eq_zero h0] at hpos
  exact lt_irrefl 0 hpos

theorem IsPositive.negative_eq_false {d : Decimal} (h : d.IsPositive) : d.negative = false := by
  rw [IsPositive, mantissa] at h
  cases hn : d.negative with
  | false => rfl
  | true => simp [hn] at h; omega

/-- A positive decimal is determined by its value and the number of its places. -/
theorem IsPositive.eq_of_toRat {a b : Decimal} (h : a.IsPositive) (hv : a.toRat = b.toRat)
    (hs : a.scale = b.scale) : a = b := by
  have hb : b.IsPositive := isPositive_iff.2 (hv ▸ isPositive_iff.1 h)
  have hm : a.mantissa = b.mantissa := by
    rw [toRat, toRat, hs, div_left_inj' (by positivity)] at hv
    exact_mod_cast hv
  refine Decimal.ext ?_ ?_ hs
  · rw [h.negative_eq_false, hb.negative_eq_false]
  · rw [← a.natAbs_mantissa, hm, b.natAbs_mantissa]

/-- A value in units of `10 ^ (-S)` is the mantissa at the scale `S`. -/
theorem toRat_mul_pow {d : Decimal} {S : Nat} (h : d.scale ≤ S) :
    d.toRat * 10 ^ S = d.mantissaAt S := by
  obtain ⟨k, rfl⟩ := Nat.exists_eq_add_of_le h
  simp only [toRat, mantissaAt, Nat.add_sub_cancel_left, Int.cast_mul, Int.cast_natCast,
    cast_tenTo, pow_add]
  field_simp

theorem toRat_of_ofParts? {m : Int} {s : Nat} {d : Decimal} (h : ofParts? m s = some d) :
    d.toRat = m / 10 ^ s := by
  rw [toRat, mantissa_of_ofParts? h, scale_of_ofParts? h]

/-- A whole number of units fits a decimal when fewer than `2 ^ 96` units of a finer scale do. -/
theorem exists_ofParts? {m : Int} {s S : Nat} (hs : s ≤ S) (hS : S ≤ maxScale)
    (h : |(m : ℚ) / 10 ^ s| * 10 ^ S < 2 ^ 96) : ∃ d, ofParts? m s = some d := by
  have hm : |(m : ℚ)| < 2 ^ 96 := by
    obtain ⟨k, rfl⟩ := Nat.exists_eq_add_of_le hs
    have h10 : (0 : ℚ) < 10 ^ s := by positivity
    have hk : (1 : ℚ) ≤ 10 ^ k := one_le_pow₀ (by norm_num)
    rw [abs_div, abs_of_pos h10, pow_add] at h
    have he : |(m : ℚ)| / 10 ^ s * (10 ^ s * 10 ^ k) = |(m : ℚ)| * 10 ^ k := by field_simp
    rw [he] at h
    exact lt_of_le_of_lt (le_mul_of_one_le_right (abs_nonneg _) hk) h
  have hn : m.natAbs < 2 ^ 96 := by
    have : ((m.natAbs : Nat) : ℚ) < 2 ^ 96 := by rw [Nat.cast_natAbs]; exact_mod_cast hm
    exact_mod_cast this
  refine Option.isSome_iff_exists.1 (isSome_ofParts?.2 ⟨?_, hs.trans hS⟩)
  rw [maxMagnitude]
  omega

/-- Numbers other than zero, of at most `S` places, whose sum in units of `10 ^ (-S)` is below
`2 ^ 96` have a sum. It is exact, with as many places as the one of them that has more. -/
theorem add?_of_ne_zero {a b : Decimal} {S : Nat} (hS : S ≤ maxScale) (ha : a.scale ≤ S)
    (hb : b.scale ≤ S) (ha0 : a.magnitude ≠ 0) (hb0 : b.magnitude ≠ 0)
    (h : |a.toRat + b.toRat| * 10 ^ S < 2 ^ 96) :
    ∃ c, a.add? b = some c ∧ c.scale = max a.scale b.scale ∧ c.toRat = a.toRat + b.toRat := by
  have hs : max a.scale b.scale ≤ S := max_le ha hb
  have hm : a.toRat + b.toRat =
      ((a.mantissaAt (max a.scale b.scale) + b.mantissaAt (max a.scale b.scale) : Int) : ℚ) /
        10 ^ max a.scale b.scale := by
    rw [Int.cast_add, ← toRat_mul_pow (le_max_left _ _), ← toRat_mul_pow (le_max_right _ _)]
    field_simp
  rw [hm] at h
  obtain ⟨c, hc⟩ := exists_ofParts? hs hS h
  refine ⟨c, ?_, scale_of_ofParts? hc, ?_⟩
  · rw [add?, if_neg ha0, if_neg hb0]
    exact fit?_self hc
  · rw [toRat_of_ofParts? hc, hm]

/-- Numbers of at most `S` places whose sum, in units of `10 ^ (-S)`, is below `2 ^ 96` have a sum,
it has at most `S` places, and it is exact. -/
theorem add?_exact {a b : Decimal} {S : Nat} (hS : S ≤ maxScale) (ha : a.scale ≤ S)
    (hb : b.scale ≤ S) (h : |a.toRat + b.toRat| * 10 ^ S < 2 ^ 96) :
    ∃ c, a.add? b = some c ∧ c.scale ≤ S ∧ c.toRat = a.toRat + b.toRat := by
  by_cases ha0 : a.magnitude = 0
  · exact ⟨b, if_pos ha0, hb, by rw [toRat_eq_zero ha0, zero_add]⟩
  · by_cases hb0 : b.magnitude = 0
    · refine ⟨a, ?_, ha, by rw [toRat_eq_zero hb0, add_zero]⟩
      rw [add?, if_neg ha0, if_pos hb0]
    · obtain ⟨c, hc, hs, hv⟩ := add?_of_ne_zero hS ha hb ha0 hb0 h
      exact ⟨c, hc, hs.trans_le (max_le ha hb), hv⟩

/-- A difference is exact under the same bound as a sum. -/
theorem sub?_exact {a b : Decimal} {S : Nat} (hS : S ≤ maxScale) (ha : a.scale ≤ S)
    (hb : b.scale ≤ S) (h : |a.toRat - b.toRat| * 10 ^ S < 2 ^ 96) :
    ∃ c, a.sub? b = some c ∧ c.scale ≤ S ∧ c.toRat = a.toRat - b.toRat := by
  have h' : |a.toRat + b.neg.toRat| * 10 ^ S < 2 ^ 96 := by rwa [toRat_neg, ← sub_eq_add_neg]
  obtain ⟨c, hc, hcs, hv⟩ := add?_exact hS ha (by rwa [scale_neg]) h'
  exact ⟨c, hc, hcs, by rw [hv, toRat_neg, sub_eq_add_neg]⟩

end Paybook.Decimal
