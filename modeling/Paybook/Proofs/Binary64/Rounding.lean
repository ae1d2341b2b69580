import Mathlib.Algebra.Order.Field.Power
import Mathlib.Algebra.Order.Field.Rat
import Mathlib.Algebra.Order.Ring.Abs
import Mathlib.Tactic.FieldSimp
import Mathlib.Tactic.Linarith
import Mathlib.Tactic.NormNum
import Mathlib.Tactic.Positivity
import Mathlib.Tactic.Ring
import Paybook.Binary64.Shortest

/-! # The numbers that are read as a double

A double stands for the numbers around it that are rounded to it: those up to half of its last place
away, and on the side where the doubles lie twice as dense a quarter. `ReadsBack` says so of the
value of a number, `readsBack_iff` that the test for it decides it, and `exists_ofQuotient` that a
quotient is rounded to a double that stands for it. -/

namespace Paybook.Binary64

open Text

variable {m k : Nat} {v w : ℚ}

/-- The value of the last place of a mantissa. -/
def lastPlace (shift : Nat) : ℚ := 2 ^ shift / 2 ^ unitBits

theorem lastPlace_pos (k : Nat) : 0 < lastPlace k := by
  unfold lastPlace
  positivity

theorem lastPlace_succ (k : Nat) : lastPlace (k + 1) = 2 * lastPlace k := by
  rw [lastPlace, lastPlace, pow_succ]
  ring

/-- How many last places below a double the numbers begin that are read as it. -/
def reach (mantissa shift : Nat) : ℚ :=
  if mantissa = 1 <<< fractionBits ∧ shift ≠ 0 then 1 / 4 else 1 / 2

theorem reach_bounds (m k : Nat) : 1 / 4 ≤ reach m k ∧ reach m k ≤ 1 / 2 := by
  unfold reach
  split <;> norm_num

/-- Whether a number is read as the double of these parts. The ends of the interval are, if the
mantissa is even. -/
def ReadsBack (m k : Nat) (v : ℚ) : Prop :=
  if m % 2 = 0 then
    (m - reach m k) * lastPlace k ≤ v ∧ v ≤ (m + 1 / 2) * lastPlace k
  else
    (m - reach m k) * lastPlace k < v ∧ v < (m + 1 / 2) * lastPlace k

/-! ## The interval -/

namespace ReadsBack

theorem bounds (h : ReadsBack m k v) :
    (m - reach m k) * lastPlace k ≤ v ∧ v ≤ (m + 1 / 2) * lastPlace k := by
  unfold ReadsBack at h
  split at h
  · exact h
  · exact ⟨h.1.le, h.2.le⟩

theorem lower (h : ReadsBack m k v) : (m - 1 / 2) * lastPlace k ≤ v := by
  have hu := lastPlace_pos k
  have hr := (reach_bounds m k).2
  have hle : (m - 1 / 2) * lastPlace k ≤ (m - reach m k) * lastPlace k := by gcongr
  exact hle.trans h.bounds.1

/-- Two numbers that are read as one double are at most its last place apart. -/
theorem abs_sub_le (hv : ReadsBack m k v) (hw : ReadsBack m k w) : |v - w| ≤ lastPlace k := by
  have hv' := hv.bounds.2
  have hw' := hw.bounds.2
  have hl := hv.lower
  have hl' := hw.lower
  rw [abs_sub_le_iff]
  constructor <;> linarith

/-- Numbers that are close to a double are read as it. -/
theorem of_abs_lt (h : |v - m * lastPlace k| < lastPlace k / 4) : ReadsBack m k v := by
  have hu := lastPlace_pos k
  obtain ⟨hlow, hhigh⟩ := abs_lt.1 h
  have hr : 1 / 4 * lastPlace k ≤ reach m k * lastPlace k := by
    have := (reach_bounds m k).1
    gcongr
  have hlower : (m - reach m k) * lastPlace k < v := by linarith
  have hupper : v < (m + 1 / 2) * lastPlace k := by linarith
  unfold ReadsBack
  split
  · exact ⟨hlower.le, hupper.le⟩
  · exact ⟨hlower, hupper⟩

/-- Numbers between a double and one that is read as it are read as it, too. -/
theorem of_between (h : ReadsBack m k v)
    (hw : v ≤ w ∧ w ≤ m * lastPlace k ∨ m * lastPlace k ≤ w ∧ w ≤ v) : ReadsBack m k w := by
  have hu := lastPlace_pos k
  have hr : 0 < reach m k * lastPlace k := mul_pos (by linarith [(reach_bounds m k).1]) hu
  unfold ReadsBack at h ⊢
  by_cases heven : m % 2 = 0
  · rw [if_pos heven] at h ⊢
    rcases hw with ⟨hvw, hwm⟩ | ⟨hmw, hwv⟩ <;> constructor <;> linarith
  · rw [if_neg heven] at h ⊢
    rcases hw with ⟨hvw, hwm⟩ | ⟨hmw, hwv⟩ <;> constructor <;> linarith

theorem pos (h : ReadsBack m k v) (hm : 1 ≤ m) : 0 < v := by
  have hu := lastPlace_pos k
  have hm : (1 : ℚ) ≤ m := by exact_mod_cast hm
  have hpos : 0 < (m - 1 / 2) * lastPlace k := mul_pos (by linarith) hu
  exact hpos.trans_le h.lower

end ReadsBack

/-! ## The test -/

section Test

variable {a n d : Nat}

theorem scaled_le_iff (hd : 0 < d) :
    a <<< k * d ≤ (4 * n) <<< unitBits ↔ (a : ℚ) / 4 * lastPlace k ≤ (n : ℚ) / d := by
  have hd' : (0 : ℚ) < d := by exact_mod_cast hd
  rw [Nat.shiftLeft_eq, Nat.shiftLeft_eq, lastPlace, ← Nat.cast_le (α := ℚ), le_div_iff₀ hd',
    show (a : ℚ) / 4 * (2 ^ k / 2 ^ unitBits) * d = a * 2 ^ k * d / (4 * 2 ^ unitBits) by ring,
    div_le_iff₀ (by positivity)]
  push_cast
  rw [show (n : ℚ) * (4 * 2 ^ unitBits) = 4 * n * 2 ^ unitBits by ring]

theorem le_scaled_iff (hd : 0 < d) :
    (4 * n) <<< unitBits ≤ a <<< k * d ↔ (n : ℚ) / d ≤ (a : ℚ) / 4 * lastPlace k := by
  have hd' : (0 : ℚ) < d := by exact_mod_cast hd
  rw [Nat.shiftLeft_eq, Nat.shiftLeft_eq, lastPlace, ← Nat.cast_le (α := ℚ), div_le_iff₀ hd',
    show (a : ℚ) / 4 * (2 ^ k / 2 ^ unitBits) * d = a * 2 ^ k * d / (4 * 2 ^ unitBits) by ring,
    le_div_iff₀ (by positivity)]
  push_cast
  rw [show (n : ℚ) * (4 * 2 ^ unitBits) = 4 * n * 2 ^ unitBits by ring]

theorem readsBack_iff (hm : 1 ≤ m) (hd : 0 < d) :
    readsBack m k n d = true ↔ ReadsBack m k ((n : ℚ) / d) := by
  have hlower : (((4 * m - if m = 1 <<< fractionBits ∧ k ≠ 0 then 1 else 2 : Nat) : ℚ) / 4) =
      m - reach m k := by
    unfold reach
    split
    · rw [Nat.cast_sub (by omega)]
      push_cast
      ring
    · rw [Nat.cast_sub (by omega)]
      push_cast
      ring
  have hupper : ((4 * m + 2 : Nat) : ℚ) / 4 = m + 1 / 2 := by
    push_cast
    ring
  unfold readsBack ReadsBack
  by_cases heven : m % 2 = 0
  · simp only [if_pos heven, Bool.and_eq_true, decide_eq_true_eq]
    rw [scaled_le_iff hd, le_scaled_iff hd, hlower, hupper]
  · simp only [if_neg heven, Bool.and_eq_true, decide_eq_true_eq]
    rw [← not_le, ← not_le, le_scaled_iff hd, scaled_le_iff hd, hlower, hupper, not_le, not_le]

end Test

/-! ## Rounding a quotient -/

section Quotient

variable {n d num den : Nat} {negative : Bool}

/-- A rounded quotient is at most a half away, and not a half if it is odd. -/
theorem roundQuotient_spec (n : Nat) (hd : 0 < d) :
    (2 * roundQuotient n d * d ≤ 2 * n + d ∧ 2 * n ≤ 2 * roundQuotient n d * d + d) ∧
    (roundQuotient n d % 2 ≠ 0 →
      2 * roundQuotient n d * d < 2 * n + d ∧ 2 * n < 2 * roundQuotient n d * d + d) ∧
    n / d ≤ roundQuotient n d ∧ roundQuotient n d ≤ n / d + 1 := by
  have hn := Nat.div_add_mod n d
  have hr := Nat.mod_lt n hd
  have hq : 2 * (n / d) * d = 2 * (d * (n / d)) := by ring
  have hq' : 2 * (n / d + 1) * d = 2 * (d * (n / d)) + 2 * d := by ring
  simp only [roundQuotient]
  split
  · rw [hq]
    omega
  · split
    · rw [hq']
      omega
    · split
      · rw [hq]
        omega
      · rw [hq']
        omega

theorem roundQuotient_near (n : Nat) (hd : 0 < d) :
    ((roundQuotient n d : ℚ) - 1 / 2 ≤ (n : ℚ) / d ∧ (n : ℚ) / d ≤ roundQuotient n d + 1 / 2) ∧
    (roundQuotient n d % 2 ≠ 0 →
      (roundQuotient n d : ℚ) - 1 / 2 < (n : ℚ) / d ∧ (n : ℚ) / d < roundQuotient n d + 1 / 2) := by
  have hd' : (0 : ℚ) < d := by exact_mod_cast hd
  obtain ⟨⟨hlow, hhigh⟩, hodd, -⟩ := roundQuotient_spec n hd
  generalize roundQuotient n d = m at *
  rw [le_div_iff₀ hd', div_le_iff₀ hd', lt_div_iff₀ hd', div_lt_iff₀ hd']
  refine ⟨⟨?_, ?_⟩, fun h => ?_⟩
  · have : (2 * m * d : ℚ) ≤ 2 * n + d := by exact_mod_cast hlow
    linarith
  · have : (2 * n : ℚ) ≤ 2 * m * d + d := by exact_mod_cast hhigh
    linarith
  · obtain ⟨hlow, hhigh⟩ := hodd h
    have hlow' : (2 * m * d : ℚ) < 2 * n + d := by exact_mod_cast hlow
    have hhigh' : (2 * n : ℚ) < 2 * m * d + d := by exact_mod_cast hhigh
    constructor <;> linarith

theorem one_shiftLeft_fractionBits : 1 <<< fractionBits = 2 ^ 52 := rfl

theorem one_shiftLeft_precision : 1 <<< precision = 2 ^ 53 := rfl

/-- The quotient that a mantissa with one bit more than its fraction is rounded from. -/
theorem div_shift_bounds {x : Nat} (h : 2 ^ 52 ≤ x) :
    2 ^ 52 ≤ x / 2 ^ (Nat.log2 x + 1 - precision) ∧
      x / 2 ^ (Nat.log2 x + 1 - precision) < 2 ^ 53 := by
  have hx : x ≠ 0 := by rintro rfl; cases h
  have hlog : 52 ≤ Nat.log2 x := (Nat.le_log2 hx).2 h
  have hshift : Nat.log2 x = 52 + (Nat.log2 x + 1 - precision) := by
    rw [precision]
    omega
  generalize Nat.log2 x + 1 - precision = shift at hshift
  constructor
  · rw [Nat.le_div_iff_mul_le (by positivity), ← pow_add, ← hshift]
    exact Nat.log2_self_le hx
  · rw [Nat.div_lt_iff_lt_mul (by positivity), ← pow_add, show 53 + shift = Nat.log2 x + 1 by omega]
    exact Nat.lt_log2_self

/-- A number is read as the mantissa that it is rounded to. Below the least full mantissa the
interval is shorter, but the number is not below it. -/
theorem ReadsBack.of_rounded (hfull : 2 ^ 52 * lastPlace k ≤ v)
    (hnear : (m - 1 / 2) * lastPlace k ≤ v ∧ v ≤ (m + 1 / 2) * lastPlace k)
    (hodd : m % 2 ≠ 0 → (m - 1 / 2) * lastPlace k < v ∧ v < (m + 1 / 2) * lastPlace k) :
    ReadsBack m k v := by
  have hu := lastPlace_pos k
  unfold ReadsBack reach
  by_cases hleast : m = 1 <<< fractionBits ∧ k ≠ 0
  · have hm : (m : ℚ) = 2 ^ 52 := by
      rw [hleast.1, one_shiftLeft_fractionBits]
      norm_num
    have heven : m % 2 = 0 := by
      rw [hleast.1]
      rfl
    rw [if_pos hleast, if_pos heven, hm]
    rw [hm] at hnear
    exact ⟨by linarith, hnear.2⟩
  · rw [if_neg hleast]
    split
    · exact hnear
    · next h => exact hodd h

/-- A number that is rounded to more bits than a mantissa has is read as the least full mantissa of
the next shift. -/
theorem ReadsBack.of_carried (hnear : (2 ^ 53 - 1 / 2) * lastPlace k ≤ v)
    (hbits : v < 2 ^ 53 * lastPlace k) : ReadsBack (1 <<< fractionBits) (k + 1) v := by
  have hu := lastPlace_pos k
  have heven : (1 <<< fractionBits) % 2 = 0 := rfl
  have hreach : reach (1 <<< fractionBits) (k + 1) = 1 / 4 := if_pos ⟨rfl, Nat.succ_ne_zero k⟩
  rw [ReadsBack, if_pos heven, hreach, lastPlace_succ, one_shiftLeft_fractionBits]
  push_cast
  constructor <;> linarith

/-- A quotient is rounded to a double that it is read as. The double has a full mantissa unless the
quotient is too small for one. -/
theorem exists_ofQuotient (negative : Bool) (hden : 0 < den)
    (hlow : 2 ^ 52 ≤ num <<< unitBits / den) (hhigh : num < den * 2 ^ 128) :
    ∃ m k, ofQuotient negative num den = .finite negative m k ∧ 2 ^ 52 ≤ m ∧ m < 2 ^ 53 ∧
      ReadsBack m k ((num : ℚ) / den) := by
  have hden' : (0 : ℚ) < den := by exact_mod_cast hden
  have hlog : Nat.log2 (num <<< unitBits / den) < 128 + unitBits := by
    rw [Nat.log2_lt (by rintro h; rw [h] at hlow; cases hlow), Nat.div_lt_iff_lt_mul hden,
      Nat.shiftLeft_eq, pow_add]
    calc num * 2 ^ unitBits
      _ < den * 2 ^ 128 * 2 ^ unitBits := by gcongr
      _ = 2 ^ 128 * 2 ^ unitBits * den := by ring
  obtain ⟨hfull, hbits⟩ := div_shift_bounds hlow
  simp only [ofQuotient]
  generalize hk : Nat.log2 (num <<< unitBits / den) + 1 - precision = k at hfull hbits ⊢
  have hkle : k + 1 ≤ maxShift := by
    simp only [precision, unitBits, maxShift] at hk hlog ⊢
    omega
  -- The quotient in units of the last place, and what it is rounded to.
  have hu := lastPlace_pos k
  have hd : 0 < den <<< k := by
    rw [Nat.shiftLeft_eq]
    positivity
  have hv : (num : ℚ) / den = ((num <<< unitBits : Nat) : ℚ) / (den <<< k : Nat) * lastPlace k := by
    rw [Nat.shiftLeft_eq, Nat.shiftLeft_eq, lastPlace]
    push_cast
    field_simp
  rw [Nat.div_div_eq_div_mul, ← Nat.shiftLeft_eq] at hfull hbits
  obtain ⟨-, -, hfloor, hceil⟩ := roundQuotient_spec (num <<< unitBits) hd
  obtain ⟨hnear, hodd⟩ := roundQuotient_near (num <<< unitBits) hd
  have hfull' : (2 : ℚ) ^ 52 ≤ ((num <<< unitBits : Nat) : ℚ) / (den <<< k : Nat) := by
    rw [le_div_iff₀ (by exact_mod_cast hd)]
    exact_mod_cast (Nat.le_div_iff_mul_le hd).1 hfull
  have hbits' : ((num <<< unitBits : Nat) : ℚ) / (den <<< k : Nat) < 2 ^ 53 := by
    rw [div_lt_iff₀ (by exact_mod_cast hd)]
    exact_mod_cast (Nat.div_lt_iff_lt_mul hd).1 hbits
  rw [hv]
  generalize roundQuotient (num <<< unitBits) (den <<< k) = m at *
  generalize ((num <<< unitBits : Nat) : ℚ) / (den <<< k : Nat) = r at *
  by_cases hcarry : m = 1 <<< precision
  · refine ⟨1 <<< fractionBits, k + 1, ?_, by decide, by decide, ?_⟩
    · rw [if_pos hcarry]
      exact if_pos hkle
    · have hm : (m : ℚ) = 2 ^ 53 := by
        rw [hcarry, one_shiftLeft_precision]
        norm_num
      rw [hm] at hnear
      exact .of_carried (by gcongr; exact hnear.1) (by gcongr)
  · have hm : m ≠ 2 ^ 53 := hcarry
    refine ⟨m, k, ?_, hfull.trans hfloor, by omega, ?_⟩
    · rw [if_neg hcarry]
      exact if_pos (Nat.le_of_succ_le hkle)
    · refine .of_rounded (by gcongr) ⟨by gcongr; exact hnear.1, by gcongr; exact hnear.2⟩
        fun h => ?_
      exact ⟨by gcongr; exact (hodd h).1, by gcongr; exact (hodd h).2⟩

end Quotient

end Paybook.Binary64
