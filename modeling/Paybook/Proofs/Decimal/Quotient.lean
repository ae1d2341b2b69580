import Mathlib.Algebra.Order.Field.Rat
import Paybook.Decimal.Arithmetic
import Paybook.Proofs.Decimal.Value

/-! # Percentages

A whole number that is rounded to half to even is a nearest one, and an even one at a tie; so
rounding keeps order, `Decimal.roundHalfEven_mono`. A percentage is rounded twice. It still keeps
the order of the shares, `Decimal.percentage_mono`, and is as near to the exact one as if it were
rounded once: the first rounding takes a share of fewer than `10 ^ 24` parts past no tie of the
second one, `Decimal.abs_percentage_sub_le`. -/

namespace Paybook.Decimal

open Text

/-! ## Rounding -/

/-- A quotient is a whole number and a fraction of one, which compares to a half as the remainder
does to half of the divisor. -/
theorem exists_fraction (n : Int) {d : Nat} (hd : 0 < d) :
    ∃ f : ℚ, (n : ℚ) / d = (n / d : Int) + f ∧ 0 ≤ f ∧ f < 1 ∧
      (2 * (n % d) < d ↔ f < 1 / 2) ∧ (d < 2 * (n % d) ↔ 1 / 2 < f) := by
  have hd' : (0 : ℚ) < d := by exact_mod_cast hd
  refine ⟨(n % d : Int) / d, ?_, ?_, ?_, ?_, ?_⟩
  · have hdiv : (n : ℚ) = (n / d : Int) * d + (n % d : Int) := by
      exact_mod_cast (Int.ediv_mul_add_emod n d).symm
    rw [hdiv]
    field_simp
  · exact div_nonneg (by exact_mod_cast Int.emod_nonneg n (by omega)) hd'.le
  · rw [div_lt_one hd']
    exact_mod_cast Int.emod_lt_of_pos n (by omega)
  · rw [div_lt_div_iff₀ hd' two_pos, one_mul, mul_comm]
    exact_mod_cast Iff.rfl
  · rw [div_lt_div_iff₀ two_pos hd', one_mul, mul_comm _ (2 : ℚ)]
    exact_mod_cast Iff.rfl

/-- The number that is rounded to is at most a half away, and even if it is just that far. -/
theorem roundHalfEven_near (n : Int) {d : Nat} (hd : 0 < d) :
    |(roundHalfEven n d : ℚ) - n / d| ≤ 1 / 2 ∧
      (|(roundHalfEven n d : ℚ) - n / d| = 1 / 2 → roundHalfEven n d % 2 = 0) := by
  obtain ⟨f, hvalue, hnonneg, hlt, hless, hmore⟩ := exists_fraction n hd
  have hdown : |((n / d : Int) : ℚ) - ((n / d : Int) + f)| = f := by
    rw [sub_add_cancel_left, abs_neg, abs_of_nonneg hnonneg]
  have hup : |((n / d + 1 : Int) : ℚ) - ((n / d : Int) + f)| = 1 - f := by
    rw [Int.cast_add, Int.cast_one, add_sub_add_left_eq_sub, abs_of_nonneg (by linarith)]
  simp only [roundHalfEven, hvalue, hless, hmore]
  by_cases hbelow : f < 1 / 2
  · rw [if_pos hbelow, hdown]
    exact ⟨hbelow.le, fun h => absurd h hbelow.ne⟩
  · rw [if_neg hbelow]
    by_cases habove : 1 / 2 < f
    · rw [if_pos habove, hup]
      exact ⟨by linarith, fun h => by linarith⟩
    · have hhalf : f = 1 / 2 := le_antisymm (not_lt.1 habove) (not_lt.1 hbelow)
      rw [if_neg habove]
      split
      · next heven =>
        rw [hdown]
        exact ⟨hhalf.le, fun _ => heven⟩
      · next hodd =>
        rw [hup]
        exact ⟨by linarith, fun _ => by omega⟩

/-- A larger quotient is not rounded to a smaller number. -/
theorem roundHalfEven_mono {n n' : Int} {d d' : Nat} (hd : 0 < d) (hd' : 0 < d')
    (h : (n : ℚ) / d ≤ n' / d') : roundHalfEven n d ≤ roundHalfEven n' d' := by
  obtain ⟨hnear, heven⟩ := roundHalfEven_near n hd
  obtain ⟨hnear', heven'⟩ := roundHalfEven_near n' hd'
  by_contra hlt
  have hle : roundHalfEven n' d' + 1 ≤ roundHalfEven n d := by omega
  have hle' : (roundHalfEven n' d' : ℚ) + 1 ≤ roundHalfEven n d := by exact_mod_cast hle
  rw [abs_le] at hnear hnear'
  -- Both quotients are halfway between the two numbers, which are not both even.
  have hhalf : |(roundHalfEven n d : ℚ) - n / d| = 1 / 2 := by
    rw [abs_of_nonneg (by linarith)]
    linarith
  have hhalf' : |(roundHalfEven n' d' : ℚ) - n' / d'| = 1 / 2 := by
    rw [abs_of_nonpos (by linarith)]
    linarith
  have hnext : roundHalfEven n d = roundHalfEven n' d' + 1 := by
    have : (roundHalfEven n d : ℚ) = roundHalfEven n' d' + 1 := by linarith
    exact_mod_cast this
  have := heven hhalf
  have := heven' hhalf'
  omega

theorem roundHalfEven_mul (k : Int) {d : Nat} (hd : 0 < d) : roundHalfEven (k * d) d = k := by
  have hd' : (d : Int) ≠ 0 := by omega
  rw [roundHalfEven, Int.mul_ediv_cancel k hd', Int.mul_emod_left]
  exact if_pos (by omega)

/-! ## Shares -/

variable {part whole part' whole' : Nat}

theorem quotient_mono (hw : 0 < whole) (hw' : 0 < whole')
    (h : (part : ℚ) / whole ≤ part' / whole') : quotient part whole ≤ quotient part' whole' := by
  refine roundHalfEven_mono hw hw' ?_
  push_cast
  rw [mul_div_right_comm, mul_div_right_comm]
  exact mul_le_mul_of_nonneg_right h (by positivity)

theorem hundredths_mono (hw : 0 < whole) (hw' : 0 < whole')
    (h : (part : ℚ) / whole ≤ part' / whole') :
    hundredths part whole ≤ hundredths part' whole' := by
  have hpos : 0 < tenTo (maxScale - 2) := tenTo_pos _
  refine roundHalfEven_mono hpos hpos ?_
  have hle : ((100 * quotient part whole : Int) : ℚ) ≤ (100 * quotient part' whole' : Int) := by
    exact_mod_cast Int.mul_le_mul_of_nonneg_left (quotient_mono hw hw' h) (by decide)
  exact div_le_div_of_nonneg_right hle (by positivity)

theorem hundredths_zero (hw : 0 < whole) : hundredths 0 whole = 0 := by
  have hzero : quotient 0 whole = 0 := by
    simpa [quotient] using roundHalfEven_mul 0 hw
  rw [hundredths, hzero]
  decide

theorem hundredths_self (hw : 0 < whole) : hundredths whole whole = 10000 := by
  have hone : quotient whole whole = tenTo maxScale := by
    rw [quotient, Int.mul_comm]
    exact roundHalfEven_mul _ hw
  rw [hundredths, hone]
  decide

/-- A share of a whole is between none and all of it. -/
theorem hundredths_bounds (hw : 0 < whole) (h : part ≤ whole) :
    0 ≤ hundredths part whole ∧ hundredths part whole ≤ 10000 := by
  have hw' : (0 : ℚ) < whole := by exact_mod_cast hw
  constructor
  · rw [← hundredths_zero hw]
    exact hundredths_mono hw hw (by gcongr; exact Nat.zero_le part)
  · rw [← hundredths_self hw]
    exact hundredths_mono hw hw (by gcongr)

/-- The exceptions for none and for all of the whole change nothing about the value. -/
theorem toRat_percentage (hw : 0 < whole) (h : part ≤ whole) :
    (percentage part whole).toRat = hundredths part whole / 100 := by
  unfold percentage
  split
  · next hnone =>
    obtain rfl : part = 0 := hnone.resolve_left hw.ne'
    simp [hundredths_zero hw]
  · split
    · next hall =>
      subst hall
      have hhundred : UInt64.toNat 100 = 100 := rfl
      rw [hundredths_self hw, toRat_ofWord, hhundred]
      norm_num
    · obtain ⟨hlower, hupper⟩ := hundredths_bounds hw h
      have hsome : (ofParts? (hundredths part whole) 2).isSome := by
        refine isSome_ofParts?.2 ⟨?_, by decide⟩
        rw [maxMagnitude]
        omega
      obtain ⟨d, hd⟩ := Option.isSome_iff_exists.1 hsome
      rw [hd, Option.getD_some, toRat_of_ofParts? hd]
      norm_num

theorem percentage_bounds (h : part ≤ whole) :
    0 ≤ (percentage part whole).toRat ∧ (percentage part whole).toRat ≤ 100 := by
  rcases Nat.eq_zero_or_pos whole with rfl | hw
  · simp [percentage]
  · obtain ⟨hlower, hupper⟩ := hundredths_bounds hw h
    have hlower' : (0 : ℚ) ≤ hundredths part whole := by exact_mod_cast hlower
    have hupper' : (hundredths part whole : ℚ) ≤ 10000 := by exact_mod_cast hupper
    rw [toRat_percentage hw h]
    constructor <;> linarith

/-- The percentage of a larger share is not smaller. -/
theorem percentage_mono (h : part ≤ whole) (h' : part' ≤ whole')
    (hle : (part : ℚ) / whole ≤ part' / whole') :
    (percentage part whole).toRat ≤ (percentage part' whole').toRat := by
  rcases Nat.eq_zero_or_pos whole with rfl | hw
  · simpa [percentage] using (percentage_bounds h').1
  rcases Nat.eq_zero_or_pos whole' with rfl | hw'
  · -- Nothing is a larger share of nothing, so the other share is none.
    have hpart : part = 0 := by
      rw [Nat.cast_zero, div_zero, div_le_iff₀ (by exact_mod_cast hw), zero_mul] at hle
      exact_mod_cast le_antisymm hle (Nat.cast_nonneg part)
    simp [percentage, hpart]
  · have hrounded : (hundredths part whole : ℚ) ≤ hundredths part' whole' := by
      exact_mod_cast hundredths_mono hw hw' hle
    rw [toRat_percentage hw h, toRat_percentage hw' h']
    exact div_le_div_of_nonneg_right hrounded (by norm_num)

/-- No number is a little more than a half away from a quotient: times the denominator the distance
is a whole number. -/
theorem abs_sub_div_le_half {k n : Int} {d : Nat} (hd : 0 < d)
    (h : |(k : ℚ) - n / d| < 1 / 2 + 1 / (2 * d)) : |(k : ℚ) - n / d| ≤ 1 / 2 := by
  have hd' : (0 : ℚ) < d := by exact_mod_cast hd
  have hdist : |(k : ℚ) - n / d| = (|k * d - n| : Int) / d := by
    rw [eq_div_iff hd'.ne', Int.cast_abs]
    nth_rewrite 2 [← abs_of_pos hd']
    rw [← abs_mul, sub_mul, div_mul_cancel₀ _ hd'.ne']
    push_cast
    rfl
  have hbound : (1 : ℚ) / 2 + 1 / (2 * d) = (d + 1) / 2 / d := by
    field_simp
  rw [hdist, hbound, div_lt_div_iff_of_pos_right hd', lt_div_iff₀ two_pos] at h
  have hcount : |k * d - n| * 2 < d + 1 := by exact_mod_cast h
  have hle : ((|k * d - n| : Int) : ℚ) * 2 ≤ d := by exact_mod_cast Int.lt_add_one_iff.1 hcount
  rw [hdist, div_le_div_iff₀ hd' two_pos]
  linarith

theorem abs_quotient_sub_le (hw : 0 < whole) :
    |(quotient part whole : ℚ) - 10 ^ 28 * part / whole| ≤ 1 / 2 := by
  have hnear := (roundHalfEven_near (part * tenTo maxScale) hw).1
  rwa [Int.cast_mul, Int.cast_natCast, Int.cast_natCast, cast_tenTo, mul_comm (part : ℚ)] at hnear

theorem abs_hundredths_sub_quotient_le :
    |(hundredths part whole : ℚ) - quotient part whole / 10 ^ 24| ≤ 1 / 2 := by
  have hnear := (roundHalfEven_near (100 * quotient part whole) (tenTo_pos (maxScale - 2))).1
  have hscaled : ((100 * quotient part whole : Int) : ℚ) / tenTo (maxScale - 2) =
      quotient part whole / 10 ^ 24 := by
    rw [cast_tenTo, maxScale]
    push_cast
    ring
  rwa [hscaled] at hnear

/-- Two roundings take a share of fewer than `10 ^ 24` parts no farther from the exact one than a
single one can. The first rounding moves it by less than the distance of a tie of the second one
from any other share of so many parts. -/
theorem abs_hundredths_sub_le (hw : 0 < whole) (hlt : whole < tenTo 24) :
    |(hundredths part whole : ℚ) - 10000 * part / whole| ≤ 1 / 2 := by
  have hfirst := @abs_quotient_sub_le part whole hw
  have hsecond := @abs_hundredths_sub_quotient_le part whole
  have hboth :
      |(hundredths part whole : ℚ) - 10000 * part / whole| ≤ 1 / 2 + 1 / (2 * 10 ^ 24) := by
    have hscaled : (10000 : ℚ) * part / whole = 10 ^ 28 * part / whole / 10 ^ 24 := by ring
    rw [hscaled]
    rw [abs_le] at *
    constructor <;> linarith
  have hless : (1 : ℚ) / (2 * 10 ^ 24) < 1 / (2 * whole) := by
    have hw' : (0 : ℚ) < whole := by exact_mod_cast hw
    have hlt' : (whole : ℚ) < 10 ^ 24 := by
      rw [← cast_tenTo]
      exact_mod_cast hlt
    exact one_div_lt_one_div_of_lt (by linarith) (by linarith)
  have hexact : (10000 : ℚ) * part / whole = (10000 * part : Int) / whole := by
    push_cast
    rfl
  rw [hexact] at hboth ⊢
  exact abs_sub_div_le_half hw (by linarith)

/-- A percentage is at most half of its last place away from the exact one. -/
theorem abs_percentage_sub_le (hw : 0 < whole) (h : part ≤ whole) (hlt : whole < tenTo 24) :
    |(percentage part whole).toRat - 100 * part / whole| ≤ 1 / 200 := by
  have hnear := @abs_hundredths_sub_le part whole hw hlt
  have hscaled : (hundredths part whole : ℚ) / 100 - 100 * part / whole =
      (hundredths part whole - 10000 * part / whole) / 100 := by
    ring
  rw [toRat_percentage hw h, hscaled, abs_div, abs_of_pos (by norm_num : (0 : ℚ) < 100)]
  linarith

end Paybook.Decimal
