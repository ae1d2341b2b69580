import Paybook.Json.Basic
import Paybook.Binary64.Shortest
import Paybook.Decimal.Parser

/-! # What a JSON number stands for

A whole number of 64 bits stands for itself. Any other number is a double, read in rounded steps:
first as many digits as fit into 64 bits, as a whole number, and then the power of ten. -/

namespace Paybook.Json

open Text

/-- What a number stands for. -/
inductive Quantity where
  | whole (n : Int)
  | double (x : Binary64)
deriving DecidableEq, Repr

/-- Appends digits to a number as long as it stays below the word limit, and gives the digits that
are left. -/
def gather (n : Nat) : List Char → Nat × List Char
  | [] => (n, [])
  | c :: cs =>
    let next := 10 * n + (c.toNat - '0'.toNat)
    if next < wordLimit then gather next cs else (n, c :: cs)

/-- The largest power of ten that is divided or multiplied by at once. -/
def powerStep : Nat := 308

/-- The quotient of a double and a power of ten, in steps of `10 ^ 308`. -/
def overPower (x : Binary64) (k : Nat) : Binary64 :=
  if k ≤ powerStep then x.overPositive (.ofScientific false 1 k)
  else if x.isZero then x
  else overPower (x.overPositive (.ofScientific false 1 powerStep)) (k - powerStep)
termination_by k
decreasing_by simp only [powerStep] at *; omega

/-- A whole number times a power of ten, rounded after each step; none when it is too large. -/
def scaled? (n : Nat) (power : Int) : Option Binary64 :=
  let x := Binary64.ofNat n
  if power < 0 then some (overPower x (-power).toNat)
  else if power ≤ powerStep then
    let y := x.timesPositive (.ofScientific false 1 power)
    if y.isInfinite then none else some y
  else if x.isZero then some x
  else none

/-- The double that a number is read as; none when it is too large. -/
def Numeral.double? (n : Numeral) : Option Binary64 :=
  let (significand, left) := gather 0 n.whole
  let (significand, skipped) := gather significand n.places
  let shift : Int := left.length - (n.places.length - skipped.length : Nat)
  let power : Int := match n.power with
    | none => 0
    | some (true, ds) => -(Nat.ofDigitChars 10 ds 0 : Int)
    | some (false, ds) => Nat.ofDigitChars 10 ds 0
  (scaled? significand (shift + power)).map fun x => if n.negative then x.neg else x

/-- What a number stands for; nothing when it is too large for a double. Zero with a minus sign is
a double. -/
def Numeral.quantity? (n : Numeral) : Option Quantity :=
  let whole := Nat.ofDigitChars 10 n.whole 0
  if n.places = [] ∧ n.power = none ∧ n.negative = false ∧ whole < wordLimit then
    some (.whole whole)
  else if n.places = [] ∧ n.power = none ∧ n.negative = true ∧ 0 < whole ∧
      whole ≤ wordLimit / 2 then
    some (.whole (-whole))
  else n.double?.map .double

/-! ## Values of a given sort -/

/-- A number below the word limit, written as a whole one. -/
def toWord? : Json → Option Nat
  | .number n =>
    match n.quantity? with
    | some (.whole (.ofNat w)) => some w
    | _ => none
  | _ => none

/-- A double; whole numbers are rounded to one. -/
def toDouble? : Json → Option Binary64
  | .number n =>
    match n.quantity? with
    | some (.whole (.ofNat w)) => some (.ofNat w)
    | some (.whole (.negSucc w)) => some (Binary64.ofNat (w + 1)).neg
    | some (.double x) => some x
    | none => none
  | _ => none

/-- A decimal: a string that writes one, or a number. A number that is no whole one has the places
of the shortest text of its double. -/
def toDecimal? : Json → Option Decimal
  | .string (some s) => Decimal.parse? s
  | .number n =>
    match n.quantity? with
    | some (.whole w) => Decimal.ofInt? w
    | some (.double x) => Decimal.readPlain? x.toChars
    | none => none
  | _ => none

/-- A text. -/
def toText? : Json → Option String
  | .string s => s
  | _ => none

/-- `null`, or a value of the given sort. -/
def nullable? {α : Type} (f : Json → Option α) : Json → Option (Option α)
  | .null => some none
  | v => (f v).map some

/-- An array of values of the given sort. -/
def list? {α : Type} (f : Json → Option α) : Json → Option (List α)
  | .array vs => vs.mapM f
  | _ => none

/-- One of some names: as a string, or as an object whose only member has that name and is
`null`. -/
def name? : Json → Option String
  | .string s => s
  | .object [(k, .null)] => k
  | _ => none

end Paybook.Json
