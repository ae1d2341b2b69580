import Mathlib.Algebra.Order.Field.Basic
import Paybook.Binary64.Literal
import Paybook.Proofs.Binary64.Shortest
import Paybook.Proofs.Decimal.Printed

/-! # Decimals that are taken for doubles

The value of a decimal that is rounded to a double, and printed and read again, comes back within
one part of `10 ^ 15` of itself, and unchanged if fifteen digits write it:
`rounded_ofScientific`. -/

namespace Paybook

open Text

/-- A number with a sign. -/
def signed (negative : Bool) (v : ℚ) : ℚ := if negative then -v else v

theorem abs_signed {negative : Bool} {v : ℚ} (hv : 0 ≤ v) : |signed negative v| = v := by
  unfold signed
  split
  · rw [abs_neg, abs_of_nonneg hv]
  · exact abs_of_nonneg hv

theorem abs_signed_sub (negative : Bool) (v w : ℚ) :
    |signed negative v - signed negative w| = |v - w| := by
  unfold signed
  split
  · rw [neg_sub_neg, abs_sub_comm]
  · rfl

namespace Decimal

theorem toRat_eq_signed (d : Decimal) :
    d.toRat = signed d.negative (d.magnitude * 10 ^ (-d.scale : Int)) := by
  rw [toRat, mantissa, signed, zpow_neg, zpow_natCast]
  split <;> (push_cast; ring)

theorem abs_toRat (d : Decimal) : |d.toRat| = d.magnitude * 10 ^ (-d.scale : Int) := by
  rw [toRat_eq_signed, abs_signed (by positivity)]

theorem abs_toRat_le (d : Decimal) : |d.toRat| ≤ maxMagnitude := by
  have hmax : (d.magnitude : ℚ) ≤ maxMagnitude := by exact_mod_cast d.magnitude_le
  rw [abs_toRat]
  refine (mul_le_of_le_one_right (Nat.cast_nonneg _) ?_).trans hmax
  exact zpow_le_one_of_nonpos₀ (by norm_num) (by omega)

/-- What may be read for a value that is taken for a double: numbers that are near it, and for all
but the largest values there is one. Values of fifteen digits are read as they are. -/
structure Rounded (w : ℚ) (read : Option Decimal) : Prop where
  near : ∀ d, read = some d → |d.toRat - w| ≤ |w| / 10 ^ 15
  isSome : |w| ≤ 79 * 10 ^ 27 → read.isSome = true
  exact : ∀ v : Decimal, v.toRat = w → v.magnitude < 10 ^ 15 → ∃ d, read = some d ∧ d.toRat = w

/-- It is enough that a near number is read, unless it is too large for a decimal. -/
theorem Rounded.of_near {negative : Bool} {u w : ℚ} {read : Option Decimal} (hw : 0 ≤ w)
    (hread : (∃ d, read = some d ∧ d.toRat = signed negative u) ∨
      (maxMagnitude < u ∧ read = none))
    (hnear : |u - w| ≤ w / 10 ^ 15)
    (hexact : ∀ v : Decimal, |v.toRat| = w → v.magnitude < 10 ^ 15 → u = w) :
    Rounded (signed negative w) read := by
  rcases hread with ⟨d, rfl, hvalue⟩ | ⟨hlt, rfl⟩
  · refine ⟨?_, fun _ => rfl, fun v hv hfew => ⟨d, rfl, ?_⟩⟩
    · rintro _ ⟨⟩
      rwa [hvalue, abs_signed_sub, abs_signed hw]
    · rw [hvalue, hexact v (by rw [hv, abs_signed hw]) hfew]
  · refine ⟨nofun, fun hle => ?_, fun v hv hfew => ?_⟩
    · have hclose := (abs_sub_le_iff.1 hnear).1
      rw [abs_signed hw] at hle
      rw [maxMagnitude] at hlt
      norm_num at hle hlt hclose
      linarith
    · have hv' : |v.toRat| = w := by rw [hv, abs_signed hw]
      rw [hexact v hv' hfew, ← hv'] at hlt
      exact absurd v.abs_toRat_le hlt.not_ge

end Decimal

namespace Binary64

open Decimal

variable {m k g digits n : Nat} {q : Int} {v : Decimal} {w : ℚ}

/-! ## Printing -/

/-- Digits and a power of ten are printed like a decimal, if they are in range. -/
theorem exists_toChars_eq_positional (negative : Bool) (hg : g ≠ 0) (hbits : g < 10 ^ 21)
    (hplaces : -(maxScale : Int) ≤ q) (hle : g * (10 : ℚ) ^ q ≤ maxMagnitude) :
    ∃ d : Decimal, d.toChars = (if negative then ['-'] else []) ++ positional g q ∧
      d.magnitude ≠ 0 ∧ d.toRat = signed negative (g * 10 ^ q) := by
  unfold positional
  by_cases hq : 0 ≤ q
  · obtain ⟨n, rfl⟩ := Int.eq_ofNat_of_zero_le hq
    have hmax : g * tenTo n ≤ maxMagnitude := by
      rw [zpow_natCast, ← cast_tenTo] at hle
      exact_mod_cast hle
    have hpos : g * tenTo n ≠ 0 := Nat.mul_ne_zero hg (tenTo_pos n).ne'
    refine ⟨⟨negative, g * tenTo n, 0, hmax, Nat.zero_le _⟩, ?_, hpos, ?_⟩
    · have hlen : 1 - (writeNat (g * tenTo n)).length = 0 :=
        Nat.sub_eq_zero_of_le Nat.length_toDigits_pos
      rw [if_pos hq, Int.toNat_natCast, writeNat_append_zeros (Nat.pos_of_ne_zero hg)]
      simp only [Decimal.toChars, padded, hlen, List.replicate_zero, List.nil_append,
        Nat.sub_zero, List.take_length, if_true, List.append_nil]
    · rw [toRat_eq_signed, zpow_natCast]
      simp
  · obtain ⟨n, hn⟩ := Int.eq_ofNat_of_zero_le (by omega : 0 ≤ -q)
    obtain rfl : q = -n := by omega
    have hn0 : n ≠ 0 := by omega
    have hmax : g ≤ maxMagnitude := by
      rw [maxMagnitude]
      omega
    refine ⟨⟨negative, g, n, hmax, by omega⟩, ?_, hg, ?_⟩
    · rw [if_neg hq]
      simp only [Decimal.toChars, padded, neg_neg, Int.toNat_natCast, if_neg hn0,
        List.append_assoc]
    · rw [toRat_eq_signed]

/-- Otherwise they are not read back. -/
theorem readPlain?_positional_eq_none (negative : Bool) (hg : g ≠ 0) (hbits : g < 10 ^ 21)
    (hlt : maxMagnitude < g * (10 : ℚ) ^ q) :
    readPlain? ((if negative then ['-'] else []) ++ positional g q) = none := by
  unfold positional
  by_cases hq : 0 ≤ q
  · obtain ⟨n, rfl⟩ := Int.eq_ofNat_of_zero_le hq
    rw [if_pos hq, Int.toNat_natCast, writeNat_append_zeros (Nat.pos_of_ne_zero hg)]
    refine readPlain?_writeNat negative ?_
    rw [zpow_natCast, ← cast_tenTo] at hlt
    exact_mod_cast hlt
  · -- So few digits are in range without a power of ten.
    have hsmall : g * (10 : ℚ) ^ q ≤ g := by
      refine mul_le_of_le_one_right (Nat.cast_nonneg g) ?_
      exact zpow_le_one_of_nonpos₀ (by norm_num) (by omega)
    have hmax : g ≤ maxMagnitude := by
      rw [maxMagnitude]
      omega
    have hmax' : (g : ℚ) ≤ maxMagnitude := by exact_mod_cast hmax
    exact absurd (hlt.trans_le (hsmall.trans hmax')) (lt_irrefl _)

theorem readPlain?_positional (negative : Bool) (hg : g ≠ 0) (hbits : g < 10 ^ 21)
    (hplaces : -(maxScale : Int) ≤ q) :
    (∃ d, readPlain? ((if negative then ['-'] else []) ++ positional g q) = some d ∧
      d.toRat = signed negative (g * 10 ^ q)) ∨
    (maxMagnitude < g * (10 : ℚ) ^ q ∧
      readPlain? ((if negative then ['-'] else []) ++ positional g q) = none) := by
  rcases le_or_gt (g * (10 : ℚ) ^ q) maxMagnitude with hle | hlt
  · obtain ⟨d, htext, hd, hvalue⟩ := exists_toChars_eq_positional negative hg hbits hplaces hle
    refine .inl ⟨d, ?_, hvalue⟩
    rw [← htext, readPlain?_toChars, unsignedZero_eq_self fun _ => hd]
  · exact .inr ⟨hlt, readPlain?_positional_eq_none negative hg hbits hlt⟩

/-- What is read of a printed double, for the value of a decimal that is read as it. -/
theorem rounded_toChars (negative : Bool) (hlow : 2 ^ 52 ≤ m) (hhigh : m < 2 ^ 53)
    (hw : 0 < w) (hreads : ReadsBack m k w) (hv : |v.toRat| = w) :
    Rounded (signed negative w) (readPlain? (toChars (.finite negative m k))) := by
  have hspec : ∀ v : Decimal, |v.toRat| = w → ∃ g q, shortest m k = (g, q) ∧ g ≠ 0 ∧
      ReadsBack m k (g * 10 ^ q) ∧ -(v.scale : Int) ≤ q ∧ g < 10 ^ 21 := by
    intro v hv
    rw [abs_toRat] at hv
    refine shortest_spec hlow hhigh (hv ▸ hreads) ?_
    rintro h
    rw [h, Nat.cast_zero, zero_mul] at hv
    exact hw.ne hv
  obtain ⟨g, q, hshortest, hg, hback, hq, hbits⟩ := hspec v hv
  have hnear := abs_sub_le_of_full hlow hback hreads
  have hscale : (v.scale : Int) ≤ maxScale := by exact_mod_cast v.scale_le
  have hm : m ≠ 0 := by rintro rfl; cases hlow
  rw [toChars, if_neg hm, hshortest]
  refine .of_near hw.le (readPlain?_positional negative hg hbits (by omega)) hnear ?_
  intro v hv hfew
  obtain ⟨_, _, hsame, -, -, hq, -⟩ := hspec v hv
  cases hshortest.symm.trans hsame
  rw [← hv, abs_toRat] at hnear ⊢
  exact eq_of_abs_sub_le hq hfew hnear

/-- A zero of either sign is printed as a zero. -/
theorem readPlain?_toChars_zero (negative : Bool) (k : Nat) :
    readPlain? (toChars (.finite negative 0 k)) = some .zero := by
  cases negative <;> rfl

/-! ## Reading -/

/-- Digits and places of a number that is neither too large nor too small make a quotient. -/
theorem ofScientific_eq (negative : Bool) (hdigits : digits ≠ 0)
    (hlow : tenTo n ≤ digits * 10 ^ 28) (hhigh : digits < 10 ^ 29 * tenTo n) :
    ofScientific negative digits (-n) = ofQuotient negative digits (tenTo n) := by
  obtain ⟨hlen, hlen'⟩ := length_writeNat_bounds (Nat.pos_of_ne_zero hdigits)
  have hpos : 0 < (writeNat digits).length := Nat.length_toDigits_pos
  have hten : tenTo n = 10 ^ n := rfl
  rw [hten] at hlow hhigh
  have hlower : n < (writeNat digits).length + 28 := by
    rw [← Nat.pow_lt_pow_iff_right (a := 10) (by decide), pow_add]
    exact hlow.trans_lt (Nat.mul_lt_mul_of_pos_right hlen' (by positivity))
  have hupper : (writeNat digits).length - 1 < 29 + n := by
    rw [← Nat.pow_lt_pow_iff_right (a := 10) (by decide), pow_add]
    exact hlen.trans_lt hhigh
  have hsmall : ¬(digits = 0 ∨ ((Nat.toDigits 10 digits).length : Int) + -n < -330) := by
    change ¬(digits = 0 ∨ ((writeNat digits).length : Int) + -n < -330)
    omega
  have hlarge : ¬310 < ((Nat.toDigits 10 digits).length : Int) + -n := by
    change ¬310 < ((writeNat digits).length : Int) + -n
    omega
  simp only [ofScientific, if_neg hsmall, if_neg hlarge]
  split
  · next hn =>
    obtain rfl : n = 0 := by omega
    simp
  · simp

/-- The value of a decimal is rounded to a double that it is read as. -/
theorem exists_ofScientific (negative : Bool) (hv : v.magnitude ≠ 0)
    (hsame : |v.toRat| = digits / 10 ^ n) :
    ∃ m k, ofScientific negative digits (-n) = .finite negative m k ∧ 2 ^ 52 ≤ m ∧ m < 2 ^ 53 ∧
      ReadsBack m k (digits / 10 ^ n) := by
  have hcross : v.magnitude * tenTo n = digits * tenTo v.scale := by
    rw [abs_toRat, zpow_neg, zpow_natCast, ← div_eq_mul_inv,
      div_eq_div_iff (by positivity) (by positivity), ← cast_tenTo, ← cast_tenTo] at hsame
    exact_mod_cast hsame
  have hn := tenTo_pos n
  have hlow : tenTo n ≤ digits * 10 ^ 28 := calc
    tenTo n ≤ v.magnitude * tenTo n := Nat.le_mul_of_pos_left _ (Nat.pos_of_ne_zero hv)
    _ = digits * tenTo v.scale := hcross
    _ ≤ digits * 10 ^ 28 := Nat.mul_le_mul_left _ (Nat.pow_le_pow_right (by decide) v.scale_le)
  have hhigh : digits < 10 ^ 29 * tenTo n := calc
    digits ≤ digits * tenTo v.scale := Nat.le_mul_of_pos_right _ (tenTo_pos _)
    _ = v.magnitude * tenTo n := hcross.symm
    _ < 10 ^ 29 * tenTo n := Nat.mul_lt_mul_of_pos_right (v.magnitude_le.trans_lt (by decide)) hn
  have hdigits : digits ≠ 0 := by
    rintro rfl
    omega
  rw [ofScientific_eq negative hdigits hlow hhigh, ← cast_tenTo]
  refine exists_ofQuotient negative hn ?_ ?_
  · rw [Nat.le_div_iff_mul_le hn, Nat.shiftLeft_eq]
    calc 2 ^ 52 * tenTo n
      _ ≤ 2 ^ 52 * (digits * 10 ^ 28) := Nat.mul_le_mul_left _ hlow
      _ = digits * (2 ^ 52 * 10 ^ 28) := by ring
      _ ≤ digits * 2 ^ unitBits := Nat.mul_le_mul_left _ (by decide +kernel)
  · rw [Nat.mul_comm]
    exact hhigh.trans (Nat.mul_lt_mul_of_pos_right (by decide) hn)

/-- What is read of the value of a decimal that is taken for a double and printed. -/
theorem rounded_ofScientific (negative : Bool) (hsame : |v.toRat| = digits / 10 ^ n) :
    Rounded (signed negative (digits / 10 ^ n))
      (readPlain? (ofScientific negative digits (-n)).toChars) := by
  by_cases hv : v.magnitude = 0
  · rw [toRat_eq_zero hv, abs_zero] at hsame
    have hdigits : digits = 0 := by
      have := (div_eq_zero_iff.1 hsame.symm).resolve_right (by positivity)
      exact_mod_cast this
    rw [ofScientific, if_pos (.inl hdigits), readPlain?_toChars_zero, ← hsame]
    refine .of_near (le_refl 0) (.inl ⟨.zero, rfl, ?_⟩) (by simp) fun _ _ _ => rfl
    simp [signed]
  · obtain ⟨m, k, hdouble, hlow, hhigh, hreads⟩ := exists_ofScientific negative hv hsame
    have hpos : (0 : ℚ) < digits / 10 ^ n := by
      rw [← hsame, abs_toRat]
      have : (0 : ℚ) < v.magnitude := by exact_mod_cast Nat.pos_of_ne_zero hv
      positivity
    rw [hdouble]
    exact rounded_toChars negative hlow hhigh hpos hreads hsame

end Binary64

end Paybook
