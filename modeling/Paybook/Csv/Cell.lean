import Paybook.Binary64.Literal
import Paybook.Binary64.Shortest
import Paybook.Decimal.Parser
import Paybook.Text.Numeral

/-! # Numbers in cells

Identifiers are decimal or, behind `0x`, hexadecimal. An amount is first taken for a whole number,
then for a double, whose shortest text is read, and at last for a decimal. -/

namespace Paybook.Csv

open Text

/-- The identifier that a cell writes. -/
def readId? (s : String) : Option Nat :=
  match s.toList with
  | '0' :: 'x' :: cs => (readHex? (dropPlus cs)).bind word?
  | _ => readWord? s

/-- The whole number that a cell writes, with an optional sign. -/
def readWhole? (s : String) : Option Int :=
  match s.toList with
  | '-' :: cs => (readNat? cs).map fun n => -(n : Int)
  | cs => (readNat? (dropPlus cs)).map fun n => (n : Int)

/-- Whether a whole number fits a word with a given limit: as it is, or with a sign that takes one
of the bits. -/
def fits (limit : Nat) (n : Int) : Bool := -(limit / 2 : Nat) ≤ n && n < limit

/-- The decimal that a text writes in another way than as a short whole number. -/
def readFraction? (s : String) : Option Decimal :=
  match Binary64.read? s with
  | some x => Decimal.readPlain? x.toChars
  | none => Decimal.parse? s

/-- The amount that a cell writes. Whole numbers that need more than 64 bits, but not more than
128, are refused, and so are the two truth values. -/
def readAmount? (s : String) : Option Decimal :=
  if s = "true" ∨ s = "false" then none
  else
    match readWhole? s with
    | some n =>
      if fits wordLimit n then Decimal.ofInt? n
      else if fits (wordLimit * wordLimit) n then none
      else readFraction? s
    | none => readFraction? s

end Paybook.Csv
