import Paybook.Decimal.Parser
import Paybook.Proofs.Text.Digits

/-! # Printed decimals

The text of a decimal reads back as the decimal, with its scale and its trailing zeros. Only the
sign of a zero is lost: `Decimal.readPlain?_toChars`. -/

namespace Paybook.Decimal

open Text

variable {negative hasDigit : Bool} {m s : Nat} {ds rest : List Char} {d : Decimal}

/-- A digit is neither a point nor an underscore, and has a value. -/
theorem digit?_of_isDigit {c : Char} (h : c.isDigit = true) :
    c ≠ '.' ∧ c ≠ '_' ∧ digit? c = some (c.toNat - '0'.toNat) := by
  refine ⟨?_, ?_, if_pos h⟩ <;> (rintro rfl; simp [Char.isDigit] at h)

/-- Digits before the point are taken one by one while they fit. -/
theorem readWhole?_append (hds : ∀ c ∈ ds, c.isDigit = true)
    (hm : Nat.ofDigitChars 10 ds m ≤ maxMagnitude) :
    readWhole? negative hasDigit m (ds ++ rest) =
      readWhole? negative (hasDigit || !ds.isEmpty) (Nat.ofDigitChars 10 ds m) rest := by
  induction ds generalizing hasDigit m with
  | nil => simp
  | cons c cs ih =>
    obtain ⟨hpoint, hunderscore, hdigit⟩ := digit?_of_isDigit (hds c List.mem_cons_self)
    rw [Nat.ofDigitChars_cons] at hm ⊢
    have hfits := Nat.le_trans (le_ofDigitChars _ cs) hm
    rw [List.cons_append, readWhole?, if_neg hpoint, if_neg hunderscore, hdigit]
    simp only [if_pos hfits]
    rw [ih (fun c hc => hds c (List.mem_cons_of_mem _ hc)) hm]
    simp

/-- They are refused as soon as they do not. -/
theorem readWhole?_eq_none (hds : ∀ c ∈ ds, c.isDigit = true) (hm : m ≤ maxMagnitude)
    (hlt : maxMagnitude < Nat.ofDigitChars 10 ds m) :
    readWhole? negative hasDigit m ds = none := by
  induction ds generalizing hasDigit m with
  | nil => exact absurd hm (Nat.not_le_of_lt hlt)
  | cons c cs ih =>
    obtain ⟨hpoint, hunderscore, hdigit⟩ := digit?_of_isDigit (hds c List.mem_cons_self)
    rw [Nat.ofDigitChars_cons] at hlt
    rw [readWhole?, if_neg hpoint, if_neg hunderscore, hdigit]
    dsimp only
    split
    · next hfits => exact ih (fun c hc => hds c (List.mem_cons_of_mem _ hc)) hfits hlt
    · rfl

/-- So are the places behind the point taken, as far as there may be any. -/
theorem readPlaces?_digits (hds : ∀ c ∈ ds, c.isDigit = true)
    (hm : Nat.ofDigitChars 10 ds m ≤ maxMagnitude) (hs : s + ds.length ≤ maxScale) :
    readPlaces? negative true m s ds =
      signed? negative (Nat.ofDigitChars 10 ds m) (s + ds.length) := by
  induction ds generalizing m s with
  | nil => rfl
  | cons c cs ih =>
    obtain ⟨-, hunderscore, hdigit⟩ := digit?_of_isDigit (hds c List.mem_cons_self)
    rw [Nat.ofDigitChars_cons] at hm ⊢
    rw [List.length_cons] at hs ⊢
    have hfits := Nat.le_trans (le_ofDigitChars _ cs) hm
    rw [readPlaces?, if_neg (by omega), if_neg hunderscore, hdigit]
    simp only [if_pos hfits]
    rw [ih (fun c hc => hds c (List.mem_cons_of_mem _ hc)) hm (by omega), Nat.add_right_comm,
      Nat.add_assoc]

/-! ## The text of a decimal -/

/-- The decimal without the sign of a zero. -/
def unsignedZero (d : Decimal) : Decimal :=
  ⟨d.negative && d.magnitude != 0, d.magnitude, d.scale, d.magnitude_le, d.scale_le⟩

theorem unsignedZero_eq_self (h : d.negative = true → d.magnitude ≠ 0) : d.unsignedZero = d := by
  obtain ⟨negative, magnitude, scale, _, _⟩ := d
  cases negative with
  | false => rfl
  | true => simpa [unsignedZero] using h rfl

/-- The digits before the point and behind it, of which those before it are not empty. -/
theorem exists_digits (d : Decimal) : ∃ whole places : List Char,
    d.toChars = (if d.negative then ['-'] else []) ++ whole ++
      (if d.scale = 0 then [] else '.' :: places) ∧
    (∀ c ∈ whole ++ places, c.isDigit = true) ∧ whole ≠ [] ∧ places.length = d.scale ∧
    Nat.ofDigitChars 10 (whole ++ places) 0 = d.magnitude := by
  have hlength := width_le_length_padded (d.scale + 1) d.magnitude
  refine ⟨(padded (d.scale + 1) d.magnitude).take
      ((padded (d.scale + 1) d.magnitude).length - d.scale),
    (padded (d.scale + 1) d.magnitude).drop
      ((padded (d.scale + 1) d.magnitude).length - d.scale), rfl, ?_, ?_, ?_, ?_⟩
  · rw [List.take_append_drop]
    intro c hc
    have hmem : c ∈ Time.zeroFilled (d.scale + 1) d.magnitude := hc
    exact Time.isDigit_of_mem_zeroFilled hmem
  · rw [← List.length_pos_iff, List.length_take]
    omega
  · rw [List.length_drop]
    omega
  · rw [List.take_append_drop]
    exact Time.ofDigitChars_zeroFilled (d.scale + 1) d.magnitude

theorem mem_toChars {c : Char} (h : c ∈ d.toChars) : c.isDigit = true ∨ c = '-' ∨ c = '.' := by
  obtain ⟨whole, places, htext, hdigits, -⟩ := d.exists_digits
  rw [htext, List.append_assoc, List.mem_append, List.mem_append] at h
  rcases h with hsign | hwhole | hplaces
  · split at hsign
    · exact .inr (.inl (List.mem_singleton.1 hsign))
    · cases hsign
  · exact .inl (hdigits c (List.mem_append_left _ hwhole))
  · split at hplaces
    · cases hplaces
    · rcases List.mem_cons.1 hplaces with rfl | hplace
      · exact .inr (.inr rfl)
      · exact .inl (hdigits c (List.mem_append_right _ hplace))

/-- A sign in front of digits is read first. -/
theorem readPlain?_signed (negative : Bool) (hds : ∀ c ∈ ds, c.isDigit = true) (hne : ds ≠ []) :
    readPlain? ((if negative then ['-'] else []) ++ (ds ++ rest)) =
      readWhole? negative false 0 (ds ++ rest) := by
  cases negative with
  | true => rfl
  | false =>
    obtain ⟨c, cs, rfl⟩ := List.exists_cons_of_ne_nil hne
    have hc := hds c List.mem_cons_self
    have hminus : c ≠ '-' := by rintro rfl; cases hc
    have hplus : c ≠ '+' := by rintro rfl; cases hc
    simp [readPlain?, hminus, hplus]

/-- A whole number that is too large is not read. -/
theorem readPlain?_writeNat (negative : Bool) {n : Nat} (hn : maxMagnitude < n) :
    readPlain? ((if negative then ['-'] else []) ++ writeNat n) = none := by
  have hdigits : ∀ c ∈ writeNat n, c.isDigit = true := fun c hc => isDigit_of_mem_writeNat hc
  rw [← List.append_nil (writeNat n), readPlain?_signed negative hdigits (writeNat_ne_nil n),
    List.append_nil]
  refine readWhole?_eq_none hdigits (Nat.zero_le _) ?_
  rwa [writeNat, Nat.ofDigitChars_ten_toDigits]

/-- The text of a decimal reads back as the decimal, but for the sign of a zero. -/
theorem readPlain?_toChars (d : Decimal) : readPlain? d.toChars = some d.unsignedZero := by
  obtain ⟨whole, places, htext, hdigits, hwhole, hlength, hvalue⟩ := d.exists_digits
  have hread : readWhole? d.negative false 0
      (whole ++ if d.scale = 0 then [] else '.' :: places) = some d.unsignedZero := by
    have hsigned : signed? d.negative d.magnitude d.scale = some d.unsignedZero :=
      dif_pos ⟨d.magnitude_le, d.scale_le⟩
    have hmax := d.magnitude_le
    have hscale := d.scale_le
    rw [← hvalue, Nat.ofDigitChars_append] at hmax hsigned
    rw [readWhole?_append (fun c hc => hdigits c (List.mem_append_left _ hc))
      (Nat.le_trans (le_ofDigitChars _ places) hmax), List.isEmpty_eq_false_iff.2 hwhole]
    split
    · next hzero =>
      rw [hzero] at hlength
      rw [List.length_eq_zero_iff.1 hlength, hzero] at hsigned
      exact hsigned
    · change readPlaces? d.negative true _ 0 places = _
      rw [readPlaces?_digits (fun c hc => hdigits c (List.mem_append_right _ hc)) hmax (by omega),
        Nat.zero_add, hlength]
      exact hsigned
  rw [htext, List.append_assoc,
    readPlain?_signed _ (fun c hc => hdigits c (List.mem_append_left _ hc)) hwhole, hread]

theorem parse?_toString_unsigned (d : Decimal) : parse? (toString d) = some d.unsignedZero := by
  rw [parse?, toList_toString, ofChars?, readPlain?_toChars]

/-- A decimal that is no negative zero reads back from its text. -/
theorem parse?_toString (h : d.negative = true → d.magnitude ≠ 0) :
    parse? (toString d) = some d := by
  rw [parse?_toString_unsigned, unsignedZero_eq_self h]

end Paybook.Decimal
