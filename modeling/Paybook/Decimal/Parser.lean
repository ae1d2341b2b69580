import Paybook.Decimal.Basic
import Paybook.Text.Numeral

/-! # Reading decimals

A plain decimal is an optional sign, then digits with at most one point among them and underscores
anywhere behind the first digit. Places that do not fit are dropped with one rounding; digits
before the point are never dropped. A text that is no plain decimal may be one followed by `e` or
`E` and a power of ten. -/

namespace Paybook.Decimal

open Text

/-- The value of a digit. -/
def digit? (c : Char) : Option Nat := if c.isDigit then some (c.toNat - '0'.toNat) else none

/-- The decimal of a magnitude, negated if asked for. A zero is not negative. -/
def signed? (negative : Bool) (magnitude scale : Nat) : Option Decimal :=
  ofSigned? (negative && magnitude != 0) magnitude scale

/-- Ends the number where the places stop fitting. `up` tells to round away from zero; when the
magnitude outgrows its bits by that, one more place is dropped. -/
def cut? (negative up : Bool) (magnitude scale : Nat) : Option Decimal :=
  let m := if up then magnitude + 1 else magnitude
  if m ≤ maxMagnitude then signed? negative m scale
  else if scale = 0 then none
  else signed? negative ((m + 4) / 10) (scale - 1)

/-- A character that may follow the last place that is kept. -/
def isDroppable (c : Char) : Bool := c.isDigit || c == '_'

/-- Magnitudes from here on may outgrow 64 bits by one more digit. -/
def wideFrom : Nat := 1844674407370954906

/-- Whether dropped characters make the magnitude grow. The first digit of them decides, and
underscores in front of it are passed over; but behind a magnitude that was short up to its last
digit an underscore counts as a zero. -/
def roundsUp (magnitude : Nat) (dropped : List Char) : Bool :=
  if dropped.head? = some '_' ∧ magnitude / 10 < wideFrom then false
  else ((dropped.find? Char.isDigit).bind digit?).any (5 ≤ ·)

/-- Reads on behind a point, with `scale` places read so far. -/
def readPlaces? (negative hasDigit : Bool) (magnitude scale : Nat) : List Char → Option Decimal
  | [] => if hasDigit then signed? negative magnitude scale else none
  | c :: cs =>
    if maxScale ≤ scale then
      if isDroppable c && cs.all isDroppable then
        cut? negative (roundsUp magnitude (c :: cs)) magnitude scale
      else none
    else if c = '_' then
      if hasDigit then readPlaces? negative true magnitude scale cs else none
    else
      match digit? c with
      | none => none
      | some d =>
        if 10 * magnitude + d ≤ maxMagnitude then
          readPlaces? negative true (10 * magnitude + d) (scale + 1) cs
        else if cs.all isDroppable then
          cut? negative (roundsUp magnitude (c :: cs)) magnitude scale
        else none

/-- Reads on before the point. -/
def readWhole? (negative hasDigit : Bool) (magnitude : Nat) : List Char → Option Decimal
  | [] => if hasDigit then signed? negative magnitude 0 else none
  | c :: cs =>
    if c = '.' then readPlaces? negative hasDigit magnitude 0 cs
    else if c = '_' then
      if hasDigit then readWhole? negative true magnitude cs else none
    else
      match digit? c with
      | none => none
      | some d =>
        if 10 * magnitude + d ≤ maxMagnitude then readWhole? negative true (10 * magnitude + d) cs
        else none

/-- The number that a plain decimal writes. -/
def readPlain? : List Char → Option Decimal
  | '-' :: cs => readWhole? true false 0 cs
  | '+' :: cs => readWhole? false false 0 cs
  | cs => readWhole? false false 0 cs

/-- The magnitude with fewer places; a half goes up. -/
def shortened (magnitude places : Nat) : Nat := (magnitude + tenTo places / 2) / tenTo places

/-- Moves the point `n` places to the right. The scale shrinks by that; what it cannot give
becomes trailing zeros of a whole number. -/
def shiftUp? (d : Decimal) (n : Nat) : Option Decimal :=
  if n ≤ d.scale then ofSigned? d.negative d.magnitude (d.scale - n)
  else ofSigned? d.negative (d.magnitude * tenTo (n - d.scale)) 0

/-- Moves the point `n` places to the left. The scale grows by that; places that would be too many
are first rounded away, and the sign stays even when no digit is left. -/
def shiftDown? (d : Decimal) (n : Nat) : Option Decimal :=
  if d.scale + n ≤ maxScale then ofSigned? d.negative d.magnitude (d.scale + n)
  else ofSigned? d.negative (shortened d.magnitude (d.scale + n - maxScale)) maxScale

/-- The power of ten behind an `e`: an optional minus sign, an optional plus sign and digits, at
most 28 in size. `true` stands for a negative power. -/
def readPower? (cs : List Char) : Option (Bool × Nat) :=
  let read (negative : Bool) (ds : List Char) : Option (Bool × Nat) :=
    match readNat? (dropPlus ds) with
    | some n => if n ≤ maxScale then some (negative, n) else none
    | none => none
  match cs with
  | '-' :: ds => read true ds
  | ds => read false ds

/-- Whether the character announces a power of ten. -/
def isPowerMark (c : Char) : Bool := c == 'e' || c == 'E'

/-- The number that a plain decimal with a power of ten writes. -/
def readScientific? (cs : List Char) : Option Decimal :=
  match cs.dropWhile (!isPowerMark ·) with
  | [] => none
  | _ :: power =>
    match readPlain? (cs.takeWhile (!isPowerMark ·)), readPower? power with
    | some d, some (negative, n) => if negative then d.shiftDown? n else d.shiftUp? n
    | _, _ => none

/-- The number that the characters write, if they write one. -/
def ofChars? (cs : List Char) : Option Decimal :=
  match readPlain? cs with
  | some d => some d
  | none => readScientific? cs

/-- The number that a text writes, if it writes one. -/
def parse? (s : String) : Option Decimal := ofChars? s.toList

end Paybook.Decimal
