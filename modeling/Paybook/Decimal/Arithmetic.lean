import Paybook.Decimal.Basic

/-! # Sums and quotients of decimals

A sum is exact at the larger of the two scales when its mantissa fits. Otherwise it is rounded
once, half to even, to the largest scale at which it fits, and there is none when it does not fit
without places either. The quotient of two whole numbers is rounded to the largest scale. A
percentage is a hundred times such a quotient, and is rounded once more. -/

namespace Paybook.Decimal

open Text

/-- The whole number nearest to `n / d`; of two equally near ones the even one. -/
def roundHalfEven (n : Int) (d : Nat) : Int :=
  let q := n / d
  let r := n % d
  if 2 * r < d then q
  else if (d : Int) < 2 * r then q + 1
  else if q % 2 = 0 then q else q + 1

@[simp] theorem roundHalfEven_one (n : Int) : roundHalfEven n 1 = n := by
  simp [roundHalfEven]

/-! ## Sums -/

/-- The exact value `m / 10 ^ s`, rounded once to the largest scale up to `t` at which it fits. -/
def fit? (m : Int) (s : Nat) : (t : Nat) → Option Decimal
  | 0 => ofParts? (roundHalfEven m (tenTo s)) 0
  | t + 1 =>
    match ofParts? (roundHalfEven m (tenTo (s - (t + 1)))) (t + 1) with
    | some d => some d
    | none => fit? m s t

/-- The mantissa of the number at a scale that is at least its own. -/
def mantissaAt (d : Decimal) (s : Nat) : Int := d.mantissa * tenTo (s - d.scale)

/-- The sum. Adding zero leaves the other number as it is, its scale and the sign of a zero
included; there is no sum when its whole part does not fit. -/
def add? (a b : Decimal) : Option Decimal :=
  if a.magnitude = 0 then some b
  else if b.magnitude = 0 then some a
  else
    let s := max a.scale b.scale
    fit? (a.mantissaAt s + b.mantissaAt s) s s

/-- The difference, as the sum with the opposite number. -/
def sub? (a b : Decimal) : Option Decimal := add? a b.neg

/-- The sum of a list, added up from zero and from the left. -/
def sum? (ds : List Decimal) : Option Decimal := ds.foldlM add? zero

@[simp] theorem sum?_nil : sum? [] = some zero := rfl

/-- A sum that fits at the larger scale is exact. -/
theorem fit?_self {m : Int} {s : Nat} {d : Decimal} (h : ofParts? m s = some d) :
    fit? m s s = some d := by
  cases s with
  | zero => simpa [fit?] using h
  | succ s => simp [fit?, h]

/-! ## Quotients -/

/-- The quotient of two whole numbers as a mantissa at the largest scale, half to even. -/
def quotient (part whole : Nat) : Int := roundHalfEven (part * tenTo maxScale) whole

/-- The quotient in percent, in units of two places, half to even. -/
def hundredths (part whole : Nat) : Int :=
  roundHalfEven (100 * quotient part whole) (tenTo (maxScale - 2))

/-- The share of `part` in `whole`, in percent with two places; without places when it is none or
all of it. -/
def percentage (part whole : Nat) : Decimal :=
  if whole = 0 ∨ part = 0 then zero
  else if part = whole then ofWord 100
  else (ofParts? (hundredths part whole) 2).getD zero

end Paybook.Decimal
