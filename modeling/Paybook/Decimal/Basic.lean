import Paybook.Text.Numeral

/-! # Decimal numbers

A decimal is a whole number of `10 ^ (-scale)`, with a magnitude of 96 bits and at most 28 places.
The scale is part of it: `1.5` and `1.50` have the same value and are different decimals. The sign
stands apart from the magnitude, so that there are two zeros of each scale. They have the same value
and differ in their texts; the negative one is what a negative number is rounded to when no digit of
it is left. -/

namespace Paybook

/-- The largest magnitude: 96 bits. -/
def Decimal.maxMagnitude : Nat := 79228162514264337593543950335

/-- The largest number of places after the point. -/
def Decimal.maxScale : Nat := 28

/-- The number `magnitude / 10 ^ scale` or its opposite, with its number of places. -/
@[ext] structure Decimal where
  negative : Bool
  magnitude : Nat
  scale : Nat
  magnitude_le : magnitude ≤ Decimal.maxMagnitude := by decide
  scale_le : scale ≤ Decimal.maxScale := by decide
deriving DecidableEq, Repr

namespace Decimal

open Text

/-- The magnitude with its sign. -/
def mantissa (d : Decimal) : Int := if d.negative then -d.magnitude else d.magnitude

theorem natAbs_mantissa (d : Decimal) : d.mantissa.natAbs = d.magnitude := by
  unfold mantissa; split <;> omega

/-- The decimal of these parts, if they are in range. -/
def ofSigned? (negative : Bool) (magnitude scale : Nat) : Option Decimal :=
  if h : magnitude ≤ maxMagnitude ∧ scale ≤ maxScale then
    some ⟨negative, magnitude, scale, h.1, h.2⟩
  else none

theorem ofSigned?_eq_some {negative : Bool} {m s : Nat} {d : Decimal} :
    ofSigned? negative m s = some d ↔ d.negative = negative ∧ d.magnitude = m ∧ d.scale = s := by
  unfold ofSigned?
  split
  · constructor
    · rintro ⟨⟩; exact ⟨rfl, rfl, rfl⟩
    · rintro ⟨rfl, rfl, rfl⟩; rfl
  · next h =>
    constructor
    · intro e; cases e
    · rintro ⟨rfl, rfl, rfl⟩; exact absurd ⟨d.magnitude_le, d.scale_le⟩ h

/-- The decimal with this mantissa, if it is in range. A zero is not negative. -/
def ofParts? (mantissa : Int) (scale : Nat) : Option Decimal :=
  ofSigned? (decide (mantissa < 0)) mantissa.natAbs scale

theorem mantissa_of_ofParts? {m : Int} {s : Nat} {d : Decimal} (h : ofParts? m s = some d) :
    d.mantissa = m := by
  obtain ⟨hn, hm, -⟩ := ofSigned?_eq_some.1 h
  rw [mantissa, hn, hm]
  split
  · next hd => have := of_decide_eq_true hd; omega
  · next hd => have : ¬m < 0 := by simpa using hd
               omega

theorem scale_of_ofParts? {m : Int} {s : Nat} {d : Decimal} (h : ofParts? m s = some d) :
    d.scale = s := (ofSigned?_eq_some.1 h).2.2

/-- A mantissa and a scale in range belong to a decimal. -/
theorem isSome_ofParts? {m : Int} {s : Nat} :
    (ofParts? m s).isSome ↔ m.natAbs ≤ maxMagnitude ∧ s ≤ maxScale := by
  simp [ofParts?, ofSigned?]

/-- A whole number that is in range. -/
def ofInt? (n : Int) : Option Decimal := ofParts? n 0

def zero : Decimal := { negative := false, magnitude := 0, scale := 0 }

instance : Inhabited Decimal := ⟨zero⟩

@[simp] theorem mantissa_zero : zero.mantissa = 0 := rfl

/-- A whole number of 64 bits, which always is in range. -/
def ofWord (w : UInt64) : Decimal where
  negative := false
  magnitude := w.toNat
  scale := 0
  magnitude_le := by
    have : w.toNat < 18446744073709551616 := w.toNat_lt
    rw [maxMagnitude]
    omega

@[simp] theorem mantissa_ofWord (w : UInt64) : (ofWord w).mantissa = w.toNat := rfl
@[simp] theorem scale_ofWord (w : UInt64) : (ofWord w).scale = 0 := rfl

/-- The number with the other sign and the same scale. A zero stays as it is. -/
def neg (d : Decimal) : Decimal :=
  if d.magnitude = 0 then d else { d with negative := !d.negative }

@[simp] theorem mantissa_neg (d : Decimal) : d.neg.mantissa = -d.mantissa := by
  unfold neg mantissa
  split
  · next h => simp [h]
  · cases d.negative <;> simp

@[simp] theorem scale_neg (d : Decimal) : d.neg.scale = d.scale := by
  unfold neg; split <;> rfl

/-! ## Comparison by value -/

/-- The mantissa of `a` at the sum of the two scales. -/
def across (a b : Decimal) : Int := a.mantissa * tenTo b.scale

instance : LT Decimal := ⟨fun a b => across a b < across b a⟩
instance : LE Decimal := ⟨fun a b => across a b ≤ across b a⟩

instance (a b : Decimal) : Decidable (a < b) :=
  inferInstanceAs (Decidable (across a b < across b a))
instance (a b : Decimal) : Decidable (a ≤ b) :=
  inferInstanceAs (Decidable (across a b ≤ across b a))

/-- Whether two decimals have the same value, whatever their scales. -/
def SameValue (a b : Decimal) : Prop := across a b = across b a

instance (a b : Decimal) : Decidable (SameValue a b) :=
  inferInstanceAs (Decidable (across a b = across b a))

theorem lt_def {a b : Decimal} : a < b ↔ across a b < across b a := Iff.rfl
theorem le_def {a b : Decimal} : a ≤ b ↔ across a b ≤ across b a := Iff.rfl

/-- Whether the number is greater than zero. -/
def IsPositive (d : Decimal) : Prop := 0 < d.mantissa

instance (d : Decimal) : Decidable d.IsPositive := inferInstanceAs (Decidable (0 < d.mantissa))

theorem zero_lt_iff {d : Decimal} : zero < d ↔ d.IsPositive := by
  simp [lt_def, across, IsPositive, show zero.scale = 0 from rfl]

/-! ## Dropping trailing zeros -/

/-- The magnitude and scale with every trailing zero of the places dropped. -/
def withoutZeros (m : Nat) : Nat → Nat × Nat
  | 0 => (m, 0)
  | s + 1 => if m % 10 = 0 then withoutZeros (m / 10) s else (m, s + 1)

theorem withoutZeros_bounds (m s : Nat) :
    (withoutZeros m s).1 ≤ m ∧ (withoutZeros m s).2 ≤ s := by
  induction s generalizing m with
  | zero => exact ⟨Nat.le_refl _, Nat.le_refl _⟩
  | succ s ih =>
    simp only [withoutZeros]
    split
    · have := ih (m / 10)
      exact ⟨by omega, by omega⟩
    · exact ⟨Nat.le_refl _, Nat.le_refl _⟩

/-- The same value without trailing zeros after the point; every zero becomes `0`. -/
def normalize (d : Decimal) : Decimal :=
  ⟨d.negative && d.magnitude != 0, (withoutZeros d.magnitude d.scale).1,
    (withoutZeros d.magnitude d.scale).2,
    Nat.le_trans (withoutZeros_bounds _ _).1 d.magnitude_le,
    Nat.le_trans (withoutZeros_bounds _ _).2 d.scale_le⟩

end Decimal

end Paybook
