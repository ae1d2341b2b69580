import Paybook.Text.Numeral

/-! # Doubles

The numbers of the binary64 format, as exact data: a finite one is `mantissa * 2 ^ shift / 2 ^ 1074`
with a sign, in the only form whose mantissa has 53 bits or whose shift is zero. Every operation
rounds an exact quotient once, to the nearest double and half to even. -/

namespace Paybook

/-- A double. -/
inductive Binary64 where
  | finite (negative : Bool) (mantissa shift : Nat)
  | infinite (negative : Bool)
  | nan
deriving DecidableEq, Repr

namespace Binary64

/-- The number of bits of a full mantissa. -/
def precision : Nat := 53

/-- The number of bits of a full mantissa behind its first one. -/
def fractionBits : Nat := 52

/-- The finest unit is `1 / 2 ^ 1074`. -/
def unitBits : Nat := 1074

/-- The largest shift of a finite double. -/
def maxShift : Nat := 2045

def zero : Binary64 := .finite false 0 0

instance : Inhabited Binary64 := ⟨zero⟩

/-- The double with the other sign. -/
def neg : Binary64 → Binary64
  | .finite s m k => .finite (!s) m k
  | .infinite s => .infinite (!s)
  | .nan => .nan

/-- The quotient `n / d` rounded to a whole number, half to even. -/
def roundQuotient (n d : Nat) : Nat :=
  let q := n / d
  let r := n % d
  if 2 * r < d then q
  else if d < 2 * r then q + 1
  else if q % 2 = 0 then q else q + 1

/-- The double nearest to the quotient `num / den` of numbers that are not zero, half to even. -/
def ofQuotient (negative : Bool) (num den : Nat) : Binary64 :=
  let units := num <<< unitBits
  let shift := Nat.log2 (units / den) + 1 - precision
  let m := roundQuotient units (den <<< shift)
  let (m, shift) := if m = 1 <<< precision then (1 <<< (fractionBits), shift + 1) else (m, shift)
  if shift ≤ maxShift then .finite negative m shift else .infinite negative

/-- The double nearest to `digits * 10 ^ power`. Numbers of more than 310 places before the point
are infinite and those below `10 ^ (-330)` are zero, without forming the power. -/
def ofScientific (negative : Bool) (digits : Nat) (power : Int) : Binary64 :=
  let size := (Nat.toDigits 10 digits).length + power
  if digits = 0 ∨ size < -330 then .finite negative 0 0
  else if 310 < size then .infinite negative
  else if 0 ≤ power then ofQuotient negative (digits * Text.tenTo power.toNat) 1
  else ofQuotient negative digits (Text.tenTo (-power).toNat)

/-- The double nearest to a whole number. -/
def ofNat (n : Nat) : Binary64 := if n = 0 then zero else ofQuotient false n 1

/-- Numerator and denominator of the magnitude of a finite double. -/
def ratio (mantissa shift : Nat) : Nat × Nat := (mantissa <<< shift, 1 <<< unitBits)

/-- The product of a double with a positive finite one. -/
def timesPositive (a b : Binary64) : Binary64 :=
  match a, b with
  | .finite s 0 _, .finite .. => .finite s 0 0
  | .finite s m k, .finite _ m' k' =>
    let (n, d) := ratio m k
    let (n', d') := ratio m' k'
    if m' = 0 then .finite s 0 0 else ofQuotient s (n * n') (d * d')
  | a, _ => a

/-- The quotient of a double and a positive finite one. -/
def overPositive (a b : Binary64) : Binary64 :=
  match a, b with
  | .finite s 0 _, .finite .. => .finite s 0 0
  | .finite s m k, .finite _ m' k' =>
    let (n, d) := ratio m k
    let (n', d') := ratio m' k'
    if m' = 0 then .infinite s else ofQuotient s (n * d') (d * n')
  | a, _ => a

def isInfinite : Binary64 → Bool
  | .infinite _ => true
  | _ => false

def isZero : Binary64 → Bool
  | .finite _ m _ => m == 0
  | _ => false

/-- Whether the number lies between zero and one, both included. A zero of either sign does. -/
def isShare : Binary64 → Bool
  | .finite s m k => m == 0 || (!s && m <<< k ≤ 1 <<< unitBits)
  | _ => false

/-- The 64 bits of the interchange format: sign, eleven bits of exponent, 52 bits of fraction. -/
def toBits : Binary64 → Nat
  | .finite s m k =>
    let sign := if s then 1 <<< 63 else 0
    if m < 1 <<< fractionBits then sign + m
    else sign + (k + 1) <<< fractionBits + (m - 1 <<< fractionBits)
  | .infinite s => (if s then 1 <<< 63 else 0) + 2047 <<< fractionBits
  | .nan => 2047 <<< fractionBits + 1 <<< (fractionBits - 1)

end Binary64

end Paybook
