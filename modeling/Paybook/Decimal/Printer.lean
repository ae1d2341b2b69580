import Paybook.Decimal.Basic
import Paybook.Text.Numeral

/-! # Writing decimals

A decimal is written with exactly as many places as its scale says, and at least one digit before
the point. -/

namespace Paybook.Decimal

open Text

/-- The digits of `n`, filled up with leading zeros to at least `width` of them. -/
def padded (width n : Nat) : List Char :=
  let ds := writeNat n
  List.replicate (width - ds.length) '0' ++ ds

theorem width_le_length_padded (width n : Nat) : width ≤ (padded width n).length := by
  simp [padded]; omega

/-- The characters of a decimal. A negative zero has its sign. -/
def toChars (d : Decimal) : List Char :=
  let ds := padded (d.scale + 1) d.magnitude
  let whole := ds.take (ds.length - d.scale)
  let places := ds.drop (ds.length - d.scale)
  (if d.negative then ['-'] else []) ++ whole ++ (if d.scale = 0 then [] else '.' :: places)

instance : ToString Decimal := ⟨fun d => String.ofList d.toChars⟩

theorem toList_toString (d : Decimal) : (toString d).toList = d.toChars := String.toList_ofList

end Paybook.Decimal
