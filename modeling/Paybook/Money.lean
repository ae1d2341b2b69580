import Paybook.Decimal.Arithmetic
import Paybook.Decimal.Printer
import Paybook.Failure

/-! # Amounts and balances

An amount is what one entry moves, and is always positive. A balance is what a wallet holds, summed
up from entries whenever it is asked for. -/

namespace Paybook

/-- A positive decimal. -/
structure Amount where
  value : Decimal
  positive : value.IsPositive
deriving DecidableEq, Repr

namespace Amount

/-- The amount of this value; only positive ones exist. -/
def ofDecimal? (d : Decimal) : Option Amount :=
  if h : d.IsPositive then some ⟨d, h⟩ else none

/-- The amount of this value, or the failure that it is not positive. -/
def ofDecimal (d : Decimal) : Attempt Amount :=
  match ofDecimal? d with
  | some a => .ok a
  | none => .error (.invalidArgument s!"Amount must be positive, got {d}")

theorem ofDecimal?_eq_some {d : Decimal} {a : Amount} : ofDecimal? d = some a ↔ a.value = d := by
  unfold ofDecimal?
  split
  · constructor
    · rintro ⟨⟩; rfl
    · rintro rfl; rfl
  · next h =>
    constructor
    · intro e; cases e
    · rintro rfl; exact absurd a.positive h

theorem ofDecimal?_value (a : Amount) : ofDecimal? a.value = some a := ofDecimal?_eq_some.2 rfl

instance : ToString Amount := ⟨fun a => toString a.value⟩

end Amount

/-- What a wallet holds. -/
structure Balance where
  value : Decimal
deriving DecidableEq, Repr

namespace Balance

def zero : Balance := ⟨.zero⟩

/-- The balance with an amount of money put in; none when it does not fit a decimal. -/
def add? (b : Balance) (d : Decimal) : Option Balance := (b.value.add? d).map mk

/-- The balance with an amount of money taken out; none when it does not fit a decimal. -/
def sub? (b : Balance) (d : Decimal) : Option Balance := (b.value.sub? d).map mk

/-- Whether the amount can be taken out without the balance going below zero. -/
def covers (b : Balance) (a : Amount) : Bool := decide (a.value ≤ b.value)

instance : ToString Balance := ⟨fun b => toString b.value⟩

end Balance

end Paybook
