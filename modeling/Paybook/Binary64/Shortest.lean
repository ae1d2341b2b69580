import Paybook.Binary64.Basic
import Paybook.Text.Numeral

/-! # The shortest decimal of a double

A double is written with the fewest significant digits that read back as it, and of those numbers
with the one nearest to it. -/

namespace Paybook.Binary64

open Text

/-- Whether `n / d` lies in the interval of numbers that are read as the double of these parts. Its
ends belong to it when the mantissa is even. In units of a quarter of the last place, the interval
reaches two units up, and two down, or one where the doubles below lie twice as dense. -/
def readsBack (mantissa shift n d : Nat) : Bool :=
  let below := if mantissa = 1 <<< (fractionBits) ∧ shift ≠ 0 then 1 else 2
  let lower := (4 * mantissa - below) <<< shift * d
  let upper := (4 * mantissa + 2) <<< shift * d
  let here := (4 * n) <<< unitBits
  if mantissa % 2 = 0 then lower ≤ here && here ≤ upper else lower < here && here < upper

/-- Of the two neighbours of the double on the grid of multiples of `10 ^ power`, the nearer one
that reads back, as a multiple; of two equally near ones the larger. -/
def onGrid? (mantissa shift : Nat) (power : Int) : Option Nat :=
  let (up, down) := (tenTo power.toNat, tenTo (-power).toNat)
  let num := mantissa <<< shift * down
  let den := up <<< unitBits
  let low := num / den
  let rest := num % den
  let hits (g : Nat) : Bool := readsBack mantissa shift (g * up) down
  match hits low, hits (low + 1) with
  | true, true => some (if 2 * rest < den then low else low + 1)
  | true, false => some low
  | false, true => some (low + 1)
  | false, false => none

/-- Looks at finer and finer grids, from `10 ^ power` on, for one with a number that reads back. -/
def search (mantissa shift : Nat) (power : Int) : (steps : Nat) → Nat × Int
  | 0 => ((onGrid? mantissa shift power).getD 0, power)
  | steps + 1 =>
    match onGrid? mantissa shift power with
    | some g => if g = 0 then search mantissa shift (power - 1) steps else (g, power)
    | none => search mantissa shift (power - 1) steps

/-- The number of places before the point of a magnitude, as the exponent of the power of ten above
it. For magnitudes below one tenth it is negative. -/
def magnitude (mantissa shift : Nat) : Int :=
  let (n, d) := ratio mantissa shift
  if d ≤ n then (writeNat (n / d)).length
  else 1 - (writeNat (d / n)).length

/-- Digits and power of ten of the shortest decimal of a double that is not zero. -/
def shortest (mantissa shift : Nat) : Nat × Int :=
  search mantissa shift (magnitude mantissa shift) 20

/-- A number `digits * 10 ^ power` in positional notation. -/
def positional (digits : Nat) (power : Int) : List Char :=
  if 0 ≤ power then writeNat digits ++ List.replicate power.toNat '0'
  else
    let places := (-power).toNat
    let ds := writeNat digits
    let ds := List.replicate (places + 1 - ds.length) '0' ++ ds
    ds.take (ds.length - places) ++ '.' :: ds.drop (ds.length - places)

/-- The shortest text of a double, never with an exponent. -/
def toChars : Binary64 → List Char
  | .finite s m k =>
    (if s then ['-'] else []) ++
      (if m = 0 then ['0']
       else
        let (digits, power) := shortest m k
        positional digits power)
  | .infinite s => (if s then ['-'] else []) ++ "inf".toList
  | .nan => "NaN".toList

end Paybook.Binary64
