import Mathlib.Data.List.Basic
import Paybook.Decimal.Printer
import Paybook.Time.Rfc3339

/-! # Digits read back

A number is read back from its digits, also with zeros in front of them. What ends a run of digits
is told by `EndsDigits`. -/

namespace Paybook

namespace Text

/-- Whether no digit stands at the head of a text. -/
def EndsDigits (cs : List Char) : Prop := ∀ c, cs.head? = some c → c.isDigit = false

theorem endsDigits_nil : EndsDigits [] := nofun

theorem endsDigits_cons {c : Char} {cs : List Char} (h : c.isDigit = false) :
    EndsDigits (c :: cs) := by
  rintro _ ⟨⟩
  exact h

section Runs

variable {ds rest : List Char}

/-- A run of digits is taken up to its end. -/
theorem takeWhile_isDigit (hds : ∀ c ∈ ds, c.isDigit = true) (hrest : EndsDigits rest) :
    (ds ++ rest).takeWhile Char.isDigit = ds := by
  rw [List.takeWhile_append_of_pos hds]
  cases rest with
  | nil => simp
  | cons c cs => rw [List.takeWhile_cons_of_neg (by simp [hrest c rfl]), List.append_nil]

theorem dropWhile_isDigit (hds : ∀ c ∈ ds, c.isDigit = true) (hrest : EndsDigits rest) :
    (ds ++ rest).dropWhile Char.isDigit = rest := by
  rw [List.dropWhile_append_of_pos hds]
  cases rest with
  | nil => rfl
  | cons c cs => rw [List.dropWhile_cons_of_neg (by simp [hrest c rfl])]

end Runs

/-! ## Written numbers -/

theorem writeNat_ne_nil (n : Nat) : writeNat n ≠ [] := Nat.toDigits_ne_nil

/-- No number but zero is written with a zero at its head. -/
theorem head?_writeNat {n : Nat} (h : 0 < n) : (writeNat n).head? ≠ some '0' := by
  have hdigit : ∀ m, m < 10 → 0 < m → some (Nat.digitChar m) ≠ some '0' := by decide
  induction n using Nat.strongRecOn with
  | ind n ih =>
    rw [writeNat, Nat.toDigits_eq_if (by decide)]
    split
    · next hn => exact hdigit n hn h
    · next hn =>
      rw [List.head?_append_of_ne_nil _ Nat.toDigits_ne_nil]
      exact ih (n / 10) (by omega) (by omega)

/-- A number that is not zero is multiplied by ten with each zero behind it. -/
theorem writeNat_append_zeros {n : Nat} (hn : 0 < n) (k : Nat) :
    writeNat n ++ List.replicate k '0' = writeNat (n * tenTo k) := by
  induction k with
  | zero => rw [List.replicate_zero, List.append_nil, tenTo_zero, Nat.mul_one]
  | succ k ih =>
    have hpos : 0 < n * tenTo k := Nat.mul_pos hn (tenTo_pos k)
    rw [List.replicate_succ', ← List.append_assoc, ih, tenTo_succ, Nat.mul_left_comm, writeNat,
      writeNat, Nat.toDigits_eq_if (n := 10 * (n * tenTo k)) (by decide), if_neg (by omega),
      Nat.mul_div_cancel_left _ (by decide), Nat.mul_mod_right]
    rfl

/-- A number does not fall when digits are put behind it. -/
theorem le_ofDigitChars (n : Nat) (ds : List Char) : n ≤ Nat.ofDigitChars 10 ds n := by
  rw [Nat.ofDigitChars_eq_ofDigitChars_zero]
  exact Nat.le_trans (Nat.le_mul_of_pos_left n (Nat.pow_pos (by decide))) (Nat.le_add_right _ _)

end Text

/-! ## Filling up with zeros -/

namespace Time

open Text

variable {width n : Nat}

theorem isDigit_of_mem_zeroFilled {c : Char} (h : c ∈ zeroFilled width n) : c.isDigit = true := by
  rcases List.mem_append.1 h with h | h
  · rw [List.eq_of_mem_replicate h]
    rfl
  · exact isDigit_of_mem_writeNat h

theorem ofDigitChars_zeroFilled (width n : Nat) :
    Nat.ofDigitChars 10 (zeroFilled width n) 0 = n := by
  rw [zeroFilled, Nat.ofDigitChars_append, Nat.ofDigitChars_replicate_zero, Nat.mul_zero]
  exact Nat.ofDigitChars_ten_toDigits

theorem readNat?_zeroFilled (width n : Nat) : readNat? (zeroFilled width n) = some n := by
  rw [readNat?, if_pos, ofDigitChars_zeroFilled]
  refine ⟨?_, List.all_eq_true.2 fun c hc => isDigit_of_mem_zeroFilled hc⟩
  exact List.append_ne_nil_of_right_ne_nil _ (writeNat_ne_nil n)

/-- A number that has no more digits than its width takes exactly this width. -/
theorem length_zeroFilled (hwidth : 0 < width) (h : n < tenTo width) :
    (zeroFilled width n).length = width := by
  have hle := (Nat.length_toDigits_le_iff (b := 10) (by decide) hwidth).2 h
  rw [zeroFilled, List.length_append, List.length_replicate]
  exact Nat.sub_add_cancel hle

end Time

end Paybook
