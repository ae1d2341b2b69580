import Mathlib.Data.Nat.Cast.Order.Field
import Mathlib.Tactic.FieldSimp
import Paybook.Proofs.Binary64.Rounding
import Paybook.Proofs.Decimal.Value

/-! # What the shortest decimal of a double keeps

A double is printed as a number that is read as it and that has no more places than any other such
number: `shortest_spec`. Two numbers that are read as one double differ behind their fifteenth digit
only, `abs_sub_le_of_full`, so that one with fifteen digits is printed unchanged:
`eq_of_abs_sub_le`. -/

namespace Paybook.Binary64

open Text

variable {m k g steps j D p : Nat} {power : Int} {v w : ℚ}

/-! ## Grids of multiples of a power of ten -/

theorem tenTo_div_tenTo (power : Int) :
    ((tenTo power.toNat : Nat) : ℚ) / (tenTo (-power).toNat : Nat) = 10 ^ power := by
  obtain ⟨n, rfl | rfl⟩ := power.eq_nat_or_neg
  · simp
  · simp

theorem readsBack_grid (hm : 1 ≤ m) (g : Nat) :
    readsBack m k (g * tenTo power.toNat) (tenTo (-power).toNat) = true ↔
      ReadsBack m k (g * 10 ^ power) := by
  rw [readsBack_iff hm (tenTo_pos _), ← tenTo_div_tenTo, Nat.cast_mul, mul_div_assoc]

/-- A quotient lies less than one above its whole part. -/
theorem cast_div_bounds {n d : Nat} (hd : 0 < d) :
    ((n / d : Nat) : ℚ) ≤ n / d ∧ (n : ℚ) / d < (n / d + 1 : Nat) := by
  have hd' : (0 : ℚ) < d := by exact_mod_cast hd
  refine ⟨Nat.cast_div_le, ?_⟩
  rw [div_lt_iff₀ hd', ← Nat.cast_mul, Nat.cast_lt, Nat.mul_comm]
  exact Nat.lt_mul_div_succ n hd

/-- The grid point below a double, as a multiple. -/
def below (m k : Nat) (power : Int) : Nat :=
  (m <<< k * tenTo (-power).toNat) / (tenTo power.toNat <<< unitBits)

theorem below_bounds (m k : Nat) (power : Int) :
    below m k power * 10 ^ power ≤ m * lastPlace k ∧
      m * lastPlace k < (below m k power + 1 : Nat) * (10 : ℚ) ^ power := by
  have hup : (0 : ℚ) < (tenTo power.toNat : Nat) := by exact_mod_cast tenTo_pos _
  have hdown : (0 : ℚ) < (tenTo (-power).toNat : Nat) := by exact_mod_cast tenTo_pos _
  have hden : 0 < tenTo power.toNat <<< unitBits := by
    rw [Nat.shiftLeft_eq]
    exact Nat.mul_pos (tenTo_pos _) (by positivity)
  have hx : (m : ℚ) * lastPlace k = ((m <<< k * tenTo (-power).toNat : Nat) : ℚ) /
      (tenTo power.toNat <<< unitBits : Nat) * 10 ^ power := by
    rw [← tenTo_div_tenTo, lastPlace, Nat.shiftLeft_eq, Nat.shiftLeft_eq, Nat.cast_mul,
      Nat.cast_mul, Nat.cast_mul, Nat.cast_pow, Nat.cast_pow, Nat.cast_ofNat]
    field_simp
  obtain ⟨hlow, hhigh⟩ := cast_div_bounds (n := m <<< k * tenTo (-power).toNat) hden
  rw [hx]
  exact ⟨by gcongr; exact hlow, by gcongr; exact hhigh⟩

/-- A grid point is found exactly if one of the two neighbours of the double is read as it. -/
theorem isSome_onGrid?_iff (hm : 1 ≤ m) : (onGrid? m k power).isSome = true ↔
    ReadsBack m k (below m k power * 10 ^ power) ∨
      ReadsBack m k ((below m k power + 1 : Nat) * 10 ^ power) := by
  rw [← readsBack_grid hm, ← readsBack_grid hm]
  unfold onGrid? below
  dsimp only
  split <;> simp_all

/-- A grid point that is found is read as the double. -/
theorem readsBack_of_onGrid? (hm : 1 ≤ m) (h : onGrid? m k power = some g) :
    ReadsBack m k (g * 10 ^ power) := by
  rw [← readsBack_grid hm]
  simp only [onGrid?] at h
  split at h
  · next hlow hhigh =>
    split at h
    · cases h
      exact hlow
    · cases h
      exact hhigh
  · next hlow _ =>
    cases h
    exact hlow
  · next _ hhigh =>
    cases h
    exact hhigh
  · cases h

/-- One is found if any multiple at all is read as the double: a neighbour lies between the two. -/
theorem isSome_onGrid?_of_multiple (hm : 1 ≤ m) (h : ReadsBack m k (g * 10 ^ power)) :
    (onGrid? m k power).isSome = true := by
  obtain ⟨hlow, hhigh⟩ := below_bounds m k power
  rw [isSome_onGrid?_iff hm]
  rcases Nat.lt_or_ge (below m k power) g with hg | hg
  · refine .inr (h.of_between (.inr ⟨hhigh.le, ?_⟩))
    gcongr
    exact hg
  · refine .inl (h.of_between (.inl ⟨?_, hlow⟩))
    gcongr

/-- One is found on a grid that is finer than a quarter of the last place. -/
theorem isSome_onGrid?_of_fine (hm : 1 ≤ m) (h : 10 ^ power ≤ lastPlace k / 4) :
    (onGrid? m k power).isSome = true := by
  obtain ⟨hlow, hhigh⟩ := below_bounds m k power
  rw [isSome_onGrid?_iff hm]
  refine .inl (.of_abs_lt ?_)
  rw [Nat.cast_add, Nat.cast_one, add_mul, one_mul] at hhigh
  rw [abs_lt]
  constructor <;> linarith

/-- The search ends at a number that is read as the double, on a grid that is no finer than any of
those in its range on which there is one. -/
theorem search_spec (hm : 1 ≤ m) (hj : j ≤ steps) (h : (onGrid? m k (power - j)).isSome = true) :
    ∃ g q, search m k power steps = (g, q) ∧ g ≠ 0 ∧ ReadsBack m k (g * 10 ^ q) ∧
      power - j ≤ q := by
  induction steps generalizing power j with
  | zero =>
    obtain rfl : j = 0 := Nat.le_zero.1 hj
    rw [Nat.cast_zero, sub_zero] at h ⊢
    obtain ⟨g, hg⟩ := Option.isSome_iff_exists.1 h
    have hreads := readsBack_of_onGrid? hm hg
    refine ⟨g, power, ?_, ?_, hreads, le_refl _⟩
    · rw [search, hg, Option.getD_some]
    · rintro rfl
      simpa using hreads.pos hm
  | succ steps ih =>
    cases hgrid : onGrid? m k power with
    | some g =>
      have hreads := readsBack_of_onGrid? hm hgrid
      have hg : g ≠ 0 := by
        rintro rfl
        simpa using hreads.pos hm
      refine ⟨g, power, ?_, hg, hreads, by omega⟩
      simp only [search, hgrid, if_neg hg]
    | none =>
      cases j with
      | zero => simp [hgrid] at h
      | succ j =>
        have hnext : power - (j + 1 : Nat) = power - 1 - j := by omega
        rw [hnext] at h ⊢
        obtain ⟨g, q, hsearch, hrest⟩ := ih (Nat.le_of_succ_le_succ hj) h
        refine ⟨g, q, ?_, hrest⟩
        simp only [search, hgrid, hsearch]

/-! ## Sizes -/

/-- A number lies below the power of ten of its length, and not below the one before. -/
theorem length_writeNat_bounds {n : Nat} (hn : 0 < n) :
    10 ^ ((writeNat n).length - 1) ≤ n ∧ n < 10 ^ (writeNat n).length := by
  have hpos : 0 < (writeNat n).length := Nat.length_toDigits_pos
  constructor
  · by_contra! hlt
    rcases Nat.eq_zero_or_pos ((writeNat n).length - 1) with hone | htwo
    · rw [hone] at hlt
      omega
    · have := (Nat.length_toDigits_le_iff (b := 10) (by decide) htwo).2 hlt
      change (writeNat n).length ≤ _ at this
      omega
  · exact (Nat.length_toDigits_le_iff (by decide) hpos).1 (le_refl _)

theorem magnitude_bounds (hm : 1 ≤ m) :
    10 ^ (magnitude m k - 1) ≤ m * lastPlace k ∧ m * lastPlace k ≤ 10 ^ magnitude m k := by
  have hn : 0 < m <<< k := by
    rw [Nat.shiftLeft_eq]
    positivity
  have hd : 0 < 1 <<< unitBits := by decide +kernel
  have hv : m * lastPlace k = ((m <<< k : Nat) : ℚ) / (1 <<< unitBits : Nat) := by
    rw [lastPlace, Nat.shiftLeft_eq, Nat.shiftLeft_eq, Nat.cast_mul, Nat.cast_mul, Nat.cast_pow,
      Nat.cast_pow, Nat.cast_ofNat]
    ring
  rw [hv]
  unfold magnitude ratio
  dsimp only
  generalize m <<< k = n at hn ⊢
  generalize 1 <<< unitBits = d at hd ⊢
  have hn' : (0 : ℚ) < n := by exact_mod_cast hn
  have hd' : (0 : ℚ) < d := by exact_mod_cast hd
  split
  · next hle =>
    obtain ⟨hlow, hhigh⟩ := length_writeNat_bounds (Nat.div_pos hle hd)
    obtain ⟨hfloor, hceil⟩ := cast_div_bounds (n := n) hd
    have hlen : 0 < (writeNat (n / d)).length := Nat.length_toDigits_pos
    generalize (writeNat (n / d)).length = len at hlow hhigh hlen
    have hpred : (len : Int) - 1 = (len - 1 : Nat) := by omega
    rw [hpred, zpow_natCast, zpow_natCast]
    constructor
    · refine le_trans ?_ hfloor
      exact_mod_cast hlow
    · refine hceil.le.trans ?_
      exact_mod_cast hhigh
  · next hlt =>
    obtain ⟨hlow, hhigh⟩ := length_writeNat_bounds (Nat.div_pos (by omega : n ≤ d) hn)
    obtain ⟨hfloor, hceil⟩ := cast_div_bounds (n := d) hn
    have hlen : 0 < (writeNat (d / n)).length := Nat.length_toDigits_pos
    generalize (writeNat (d / n)).length = len at hlow hhigh hlen
    have hneg : (1 : Int) - len = -(len - 1 : Nat) := by omega
    have hneg' : (1 : Int) - len - 1 = -(len : Nat) := by omega
    rw [hneg', hneg, zpow_neg, zpow_neg, zpow_natCast, zpow_natCast, ← inv_div (d : ℚ) n]
    have hquot : (0 : ℚ) < d / n := by positivity
    constructor
    · refine inv_anti₀ hquot (hceil.le.trans ?_)
      exact_mod_cast hhigh
    · refine inv_anti₀ (by positivity) (le_trans ?_ hfloor)
      exact_mod_cast hlow

/-- The shortest decimal of a double with a full mantissa is read as it, has at most 21 digits, and
no more places than any other number that is read as it. -/
theorem shortest_spec (hlow : 2 ^ 52 ≤ m) (hhigh : m < 2 ^ 53)
    (h : ReadsBack m k (D * 10 ^ (-p : Int))) (hD : D ≠ 0) :
    ∃ g q, shortest m k = (g, q) ∧ g ≠ 0 ∧ ReadsBack m k (g * 10 ^ q) ∧ -(p : Int) ≤ q ∧
      g < 10 ^ 21 := by
  have hm : 1 ≤ m := le_trans (by norm_num) hlow
  have hm' : (m : ℚ) < 2 ^ 53 := by exact_mod_cast hhigh
  have hlow' : (2 : ℚ) ^ 52 ≤ m := by exact_mod_cast hlow
  have hu := lastPlace_pos k
  obtain ⟨hmag, hmag'⟩ := magnitude_bounds (k := k) hm
  unfold shortest
  generalize magnitude m k = mag at hmag hmag' ⊢
  -- Numbers that are read as the double are less than ten times as large as it.
  have hless : ∀ {v : ℚ}, ReadsBack m k v → v < 10 ^ (mag + 1) := by
    intro v hv
    rw [zpow_add_one₀ (by norm_num)]
    have htwice : (m + 1 / 2) * lastPlace k ≤ 2 * (m * lastPlace k) := by
      rw [← mul_assoc]
      gcongr
      linarith
    have hpow : (0 : ℚ) < 10 ^ mag := by positivity
    linarith [hv.bounds.2]
  have hplaces : -(p : Int) ≤ mag := by
    have hone : (1 : ℚ) ≤ D := by exact_mod_cast Nat.one_le_iff_ne_zero.2 hD
    have hpow : (0 : ℚ) < 10 ^ (-p : Int) := by positivity
    have hlt : (10 : ℚ) ^ (-p : Int) < 10 ^ (mag + 1) :=
      (le_mul_of_one_le_left hpow.le hone).trans_lt (hless h)
    have := (zpow_lt_zpow_iff_right₀ (by norm_num)).1 hlt
    omega
  -- Twenty steps reach the grid of the given number or one that is finer than the double.
  obtain ⟨j, hj, hpj, hfound⟩ : ∃ j : Nat, j ≤ 20 ∧ -(p : Int) ≤ mag - j ∧
      (onGrid? m k (mag - j)).isSome = true := by
    by_cases hfew : mag + p ≤ 20
    · obtain ⟨j, hj⟩ := Int.eq_ofNat_of_zero_le (by omega : 0 ≤ mag + p)
      have hgrid : mag - j = -p := by omega
      exact ⟨j, by omega, hgrid.ge, hgrid ▸ isSome_onGrid?_of_multiple hm h⟩
    · refine ⟨20, le_refl _, by omega, isSome_onGrid?_of_fine hm ?_⟩
      have hsize : (10 : ℚ) ^ mag ≤ 10 * (m * lastPlace k) := by
        rw [zpow_sub_one₀ (by norm_num)] at hmag
        linarith
      have hmu : m * lastPlace k ≤ 2 ^ 53 * lastPlace k := by gcongr
      rw [zpow_sub₀ (by norm_num), zpow_natCast, div_le_iff₀ (by positivity)]
      linarith
  obtain ⟨g, q, hsearch, hg, hreads, hq⟩ := search_spec hm hj hfound
  refine ⟨g, q, hsearch, hg, hreads, hpj.trans hq, ?_⟩
  have hpow : (0 : ℚ) < 10 ^ q := by positivity
  have hsmall : (g : ℚ) * 10 ^ q < 10 ^ 21 * 10 ^ q := by
    refine (hless hreads).trans_le ?_
    rw [← zpow_natCast, ← zpow_add₀ (by norm_num)]
    exact zpow_le_zpow_right₀ (by norm_num) (by push_cast; omega)
  exact_mod_cast lt_of_mul_lt_mul_right hsmall hpow.le

/-- It differs from any other number that is read as the double behind its fifteenth digit only. -/
theorem abs_sub_le_of_full (hlow : 2 ^ 52 ≤ m) (hv : ReadsBack m k v) (hw : ReadsBack m k w) :
    |v - w| ≤ w / 10 ^ 15 := by
  have hu := lastPlace_pos k
  have hlow' : (2 : ℚ) ^ 52 ≤ m := by exact_mod_cast hlow
  have hlast : 10 ^ 15 * lastPlace k ≤ w := by
    refine le_trans ?_ hw.lower
    gcongr
    linarith
  refine (hv.abs_sub_le hw).trans ?_
  rw [le_div_iff₀ (by positivity)]
  linarith

/-- Multiples of one power of ten that are that close are equal, if one of them has no more than
fifteen digits. -/
theorem eq_of_abs_sub_le {q : Int} (hq : -(p : Int) ≤ q) (hD : D < 10 ^ 15)
    (h : |g * 10 ^ q - D * (10 : ℚ) ^ (-p : Int)| ≤ D * 10 ^ (-p : Int) / 10 ^ 15) :
    g * 10 ^ q = D * (10 : ℚ) ^ (-p : Int) := by
  obtain ⟨n, hn⟩ := Int.eq_ofNat_of_zero_le (by omega : 0 ≤ q + p)
  have hpow : (0 : ℚ) < 10 ^ (-p : Int) := by positivity
  have hq' : (g : ℚ) * 10 ^ q = (g * 10 ^ n : Nat) * 10 ^ (-p : Int) := by
    have : q = n + -p := by omega
    rw [this, zpow_add₀ (by norm_num), zpow_natCast]
    push_cast
    ring
  rw [hq'] at h ⊢
  generalize g * 10 ^ n = e at h ⊢
  have hdiff : |(e : ℚ) - D| < 1 := by
    rw [← sub_mul, abs_mul, abs_of_pos hpow, mul_div_right_comm] at h
    refine (le_of_mul_le_mul_right h hpow).trans_lt ?_
    rw [div_lt_one (by positivity)]
    exact_mod_cast hD
  have hsame : (e : Int) - D = 0 := by
    refine Int.abs_lt_one_iff.1 ?_
    exact_mod_cast hdiff
  have : e = D := by omega
  rw [this]

end Paybook.Binary64
