import Paybook.Binary64.Basic
import Paybook.Text.Numeral
import Paybook.Text.Spelling

/-! # Reading doubles

A literal is an optional sign and then `inf`, `infinity` or `nan` in any case, or digits with an
optional point, of which at least one digit must be there, and an optional power of ten. -/

namespace Paybook.Binary64

open Text

/-- The power of ten behind an `e`: an optional sign and at least one digit. -/
def readExponent? : List Char → Option Int
  | '-' :: ds => (readNat? ds).map fun n => -(n : Int)
  | ds => (readNat? (dropPlus ds)).map fun n => (n : Int)

/-- Reads digits, an optional point with more digits, and an optional power of ten. -/
def readFinite? (negative : Bool) (cs : List Char) : Option Binary64 :=
  let whole := cs.takeWhile Char.isDigit
  let behind := cs.dropWhile Char.isDigit
  let (places, behind) :=
    match behind with
    | '.' :: cs => (cs.takeWhile Char.isDigit, cs.dropWhile Char.isDigit)
    | cs => ([], cs)
  let digits := whole ++ places
  let value (power : Int) : Binary64 :=
    ofScientific negative (Nat.ofDigitChars 10 digits 0) (power - places.length)
  if digits = [] then none
  else
    match behind with
    | [] => some (value 0)
    | c :: cs => if c = 'e' ∨ c = 'E' then (readExponent? cs).map value else none

/-- The double that an unsigned literal writes. -/
def readUnsigned? (negative : Bool) (cs : List Char) : Option Binary64 :=
  let s := String.ofList cs
  if sameCaseless s "inf" || sameCaseless s "infinity" then some (.infinite negative)
  else if sameCaseless s "nan" then some .nan
  else readFinite? negative cs

/-- The double that a literal writes, if it is one. -/
def read? (s : String) : Option Binary64 :=
  match s.toList with
  | '-' :: cs => readUnsigned? true cs
  | '+' :: cs => readUnsigned? false cs
  | cs => readUnsigned? false cs

end Paybook.Binary64
