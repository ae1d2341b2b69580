/-! # Decimal and hexadecimal numerals

A numeral is read digit by digit, leading zeros included. Identifiers and counts are natural
numbers below `wordLimit`. -/

namespace Paybook.Text

/-- Identifiers, seeds and versions are below this bound. -/
def wordLimit : Nat := 18446744073709551616

/-- What a digit counts that has `n` digits behind it: ten to the power of `n`. -/
def tenTo (n : Nat) : Nat := Nat.pow 10 n

@[simp] theorem tenTo_zero : tenTo 0 = 1 := rfl

theorem tenTo_succ (n : Nat) : tenTo (n + 1) = 10 * tenTo n := by
  rw [Nat.mul_comm]; rfl

theorem tenTo_pos (n : Nat) : 0 < tenTo n := by
  induction n with
  | zero => exact Nat.one_pos
  | succ n ih => rw [tenTo_succ]; omega

theorem tenTo_add (m n : Nat) : tenTo (m + n) = tenTo m * tenTo n := by
  induction n with
  | zero => simp
  | succ n ih => rw [← Nat.add_assoc, tenTo_succ, tenTo_succ, ih, Nat.mul_left_comm]

/-- The number that a non-empty run of decimal digits writes. -/
def readNat? (cs : List Char) : Option Nat :=
  if cs ≠ [] ∧ cs.all Char.isDigit = true then some (Nat.ofDigitChars 10 cs 0) else none

/-- The digits of a number, without leading zeros. -/
def writeNat (n : Nat) : List Char := Nat.toDigits 10 n

/-- The value of a hexadecimal digit of either case. -/
def hexValue? (c : Char) : Option Nat :=
  if '0' ≤ c ∧ c ≤ '9' then some (c.toNat - '0'.toNat)
  else if 'a' ≤ c ∧ c ≤ 'f' then some (c.toNat - 'a'.toNat + 10)
  else if 'A' ≤ c ∧ c ≤ 'F' then some (c.toNat - 'A'.toNat + 10)
  else none

/-- The number that a non-empty run of hexadecimal digits writes. -/
def readHex? (cs : List Char) : Option Nat :=
  if cs = [] then none
  else cs.foldlM (fun n c => (hexValue? c).map (16 * n + ·)) 0

/-- The text without one leading plus sign, if it has one. -/
def dropPlus : List Char → List Char
  | '+' :: cs => cs
  | cs => cs

/-- A number below the word limit. -/
def word? (n : Nat) : Option Nat := if n < wordLimit then some n else none

/-- The number that decimal digits write, after an optional plus sign, if it is below the word
limit. -/
def readWord? (s : String) : Option Nat := (readNat? (dropPlus s.toList)).bind word?

/-- The given number of small hexadecimal digits of a number, the lowest ones. -/
def writeHex : (digits : Nat) → Nat → List Char
  | 0, _ => []
  | k + 1, n => writeHex k (n / 16) ++ [Nat.digitChar (n % 16)]

theorem length_writeHex (k n : Nat) : (writeHex k n).length = k := by
  induction k generalizing n with
  | zero => rfl
  | succ k ih => simp [writeHex, ih]

theorem toList_toString (n : Nat) : (toString n).toList = writeNat n := by
  simp [toString, Nat.repr, writeNat]

theorem isDigit_of_mem_writeNat {n : Nat} {c : Char} (h : c ∈ writeNat n) : c.isDigit = true :=
  Nat.isDigit_of_mem_toDigits (by decide) (by decide) h

theorem readNat?_eq_some {cs : List Char} {n : Nat} (h : readNat? cs = some n) :
    cs ≠ [] ∧ (∀ c ∈ cs, c.isDigit = true) ∧ Nat.ofDigitChars 10 cs 0 = n := by
  simp only [readNat?] at h
  split at h
  · next hc => exact ⟨hc.1, by simpa using hc.2, by simpa using h⟩
  · simp at h

end Paybook.Text
