import Paybook.Proofs.Decimal.Printed
import Paybook.Proofs.Decimal.Value

/-! # Decimals without trailing zeros

Dropping trailing zeros keeps the value, `Decimal.toRat_normalize`, and leaves none of them to be
printed: `Decimal.getLast?_toChars_normalize`. -/

namespace Paybook.Decimal

open Text

/-- Each zero that is dropped takes one place with it. -/
theorem withoutZeros_mul_tenTo (m s : Nat) :
    (withoutZeros m s).1 * tenTo s = m * tenTo (withoutZeros m s).2 := by
  induction s generalizing m with
  | zero => rfl
  | succ s ih =>
    simp only [withoutZeros]
    split
    · next hzero =>
      have hm : 10 * (m / 10) = m := Nat.mul_div_cancel' (Nat.dvd_of_mod_eq_zero hzero)
      calc (withoutZeros (m / 10) s).1 * tenTo (s + 1)
        _ = 10 * ((withoutZeros (m / 10) s).1 * tenTo s) := by
          rw [tenTo_succ, Nat.mul_left_comm]
        _ = 10 * (m / 10) * tenTo (withoutZeros (m / 10) s).2 := by rw [ih, Nat.mul_assoc]
        _ = m * tenTo (withoutZeros (m / 10) s).2 := by rw [hm]
    · rfl

theorem withoutZeros_ends (m s : Nat) :
    (withoutZeros m s).2 = 0 ∨ (withoutZeros m s).1 % 10 ≠ 0 := by
  induction s generalizing m with
  | zero => exact .inl rfl
  | succ s ih =>
    simp only [withoutZeros]
    split
    · exact ih (m / 10)
    · next hdigit => exact .inr hdigit

theorem mantissa_normalize (d : Decimal) :
    d.normalize.mantissa * tenTo d.scale = d.mantissa * tenTo d.normalize.scale := by
  have h : ((withoutZeros d.magnitude d.scale).1 : Int) * tenTo d.scale =
      d.magnitude * tenTo (withoutZeros d.magnitude d.scale).2 := by
    exact_mod_cast withoutZeros_mul_tenTo d.magnitude d.scale
  unfold normalize mantissa
  by_cases h0 : d.magnitude = 0
  · have hzero : (withoutZeros 0 d.scale).1 = 0 :=
      Nat.eq_zero_of_le_zero (withoutZeros_bounds 0 d.scale).1
    simp [h0, hzero]
  · cases d.negative with
    | false => simpa using h
    | true => simpa [h0] using h

theorem toRat_normalize (d : Decimal) : d.normalize.toRat = d.toRat := by
  rw [toRat, toRat, div_eq_div_iff (by positivity) (by positivity), ← cast_tenTo, ← cast_tenTo]
  exact_mod_cast mantissa_normalize d

theorem toRat_unsignedZero (d : Decimal) : d.unsignedZero.toRat = d.toRat := by
  by_cases h0 : d.magnitude = 0
  · rw [toRat_eq_zero h0, toRat_eq_zero (d := d.unsignedZero) h0]
  · rw [unsignedZero_eq_self fun _ => h0]

/-! ## What is printed -/

/-- A text that has a point ends with a zero only if the magnitude does. -/
theorem mod_ten_of_getLast?_toChars {d : Decimal} (hpoint : '.' ∈ d.toChars)
    (hlast : d.toChars.getLast? = some '0') : d.scale ≠ 0 ∧ d.magnitude % 10 = 0 := by
  obtain ⟨whole, places, htext, hdigits, -, hlength, hvalue⟩ := d.exists_digits
  rw [htext] at hpoint hlast
  have hscale : d.scale ≠ 0 := by
    intro hzero
    rw [if_pos hzero, List.append_nil] at hpoint
    rcases List.mem_append.1 hpoint with hsign | hmem
    · cases hn : d.negative <;> simp [hn] at hsign
    · have := hdigits '.' (List.mem_append_left _ hmem)
      cases this
  refine ⟨hscale, ?_⟩
  have hplaces : places ≠ [] := by
    rintro rfl
    exact hscale hlength.symm
  rw [if_neg hscale, List.getLast?_append_of_ne_nil _ (List.cons_ne_nil _ _),
    List.getLast?_cons_of_ne_nil hplaces] at hlast
  obtain ⟨front, rfl⟩ := List.getLast?_eq_some_iff.1 hlast
  rw [← hvalue, ← List.append_assoc, Nat.ofDigitChars_append, Nat.ofDigitChars_cons,
    Nat.ofDigitChars_nil]
  simp

/-- The text of a number without trailing zeros does not end with one behind its point. -/
theorem getLast?_toChars_normalize (d : Decimal) (hpoint : '.' ∈ d.normalize.toChars) :
    d.normalize.toChars.getLast? ≠ some '0' := by
  intro hlast
  obtain ⟨hscale, hmod⟩ := mod_ten_of_getLast?_toChars hpoint hlast
  rcases withoutZeros_ends d.magnitude d.scale with hs | hm
  · exact hscale hs
  · exact hm hmod

end Paybook.Decimal
