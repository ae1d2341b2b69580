import Paybook.Text.Numeral
import Paybook.Text.Spelling
import Paybook.Time.Instant

/-! # Written times

Times are written in RFC 3339, in UTC, with the fewest of 0, 3, 6 or 9 digits of a second that are
exact. They are read with any offset, with blanks between the parts, with one digit where one is
enough, and with a sign before the year. -/

namespace Paybook.Time

open Text

/-! ## Writing -/

/-- A number with leading zeros up to a number of digits. -/
def zeroFilled (width n : Nat) : List Char :=
  let ds := writeNat n
  List.replicate (width - ds.length) '0' ++ ds

/-- A year with at least four digits; years outside of 0 to 9999 have a sign. -/
def writeYear (year : Int) : List Char :=
  if 0 ≤ year ∧ year ≤ 9999 then zeroFilled 4 year.toNat
  else (if year < 0 then '-' else '+') :: zeroFilled 4 year.natAbs

/-- The fewest of 0, 3, 6 or 9 digits of the part of a second. -/
def writeFraction (nanos : Nat) : List Char :=
  if nanos = 0 then []
  else if nanos % 1000000 = 0 then '.' :: zeroFilled 3 (nanos / 1000000)
  else if nanos % 1000 = 0 then '.' :: zeroFilled 6 (nanos / 1000)
  else '.' :: zeroFilled 9 nanos

/-- The date of a day. -/
def writeDate (days : Int) : List Char :=
  let d := Date.ofDays days
  writeYear d.year ++ '-' :: zeroFilled 2 d.month ++ '-' :: zeroFilled 2 d.day

/-- The time of day. The sixtieth second of a minute is a leap second. -/
def writeClock (secondOfDay nanos : Nat) : List Char :=
  let leap := nanosPerSecond ≤ nanos
  let second := secondOfDay % 60 + (if leap then 1 else 0)
  zeroFilled 2 (secondOfDay / 3600) ++ ':' :: zeroFilled 2 (secondOfDay / 60 % 60) ++
    ':' :: zeroFilled 2 second ++ writeFraction (if leap then nanos - nanosPerSecond else nanos)

/-- Date and time of day in UTC with a character between them. -/
def Instant.write (t : Instant) (between : Char) : List Char :=
  writeDate (t.seconds / secondsPerDay) ++
    between :: writeClock (t.seconds % secondsPerDay).toNat t.nanos

/-- The instant in RFC 3339. -/
def Instant.toRfc3339 (t : Instant) : String := String.ofList (t.write 'T' ++ ['Z'])

/-- The instant as messages show it. -/
instance : ToString Instant := ⟨fun t => String.ofList (t.write ' ' ++ " UTC".toList)⟩

/-! ## Reading

A step takes the text to read and gives what it read and the rest. -/

/-- One to `most` digits, as a number and how many they are. -/
def digits? (most : Nat) (cs : List Char) : Option ((Nat × Nat) × List Char) :=
  let ds := (cs.take most).takeWhile Char.isDigit
  (readNat? ds).map fun n => ((n, ds.length), cs.drop ds.length)

/-- One to `most` digits behind blanks, as a number in a range. -/
def field? (most low high : Nat) (cs : List Char) : Option (Nat × List Char) := do
  let ((n, _), rest) ← digits? most (dropBlanks cs)
  guard (low ≤ n ∧ n ≤ high)
  return (n, rest)

/-- One given character. -/
def char? (c : Char) : List Char → Option (List Char)
  | d :: cs => if d = c then some cs else none
  | [] => none

/-- A year behind blanks: up to four digits, or any number of them behind a sign. -/
def year? (cs : List Char) : Option (Int × List Char) :=
  match dropBlanks cs with
  | '-' :: cs => (digits? cs.length cs).map fun ((n, _), rest) => (-(n : Int), rest)
  | '+' :: cs => (digits? cs.length cs).map fun ((n, _), rest) => ((n : Int), rest)
  | cs => (digits? 4 cs).map fun ((n, _), rest) => ((n : Int), rest)

/-- A date as a number of days. -/
def date? (cs : List Char) : Option (Int × List Char) := do
  let (year, cs) ← year? cs
  let cs ← char? '-' (dropBlanks cs)
  let (month, cs) ← field? 2 1 12 cs
  let cs ← char? '-' (dropBlanks cs)
  let (day, cs) ← field? 2 1 31 cs
  let date : Date := ⟨year, month, day⟩
  guard date.IsValid
  return (date.toDays, cs)

/-- The nanoseconds that the digits behind a point write. Digits past the ninth are skipped. -/
def fraction? : List Char → Option (Nat × List Char)
  | '.' :: cs => do
    let ((n, count), rest) ← digits? 9 cs
    return (n * tenTo (9 - count), rest.dropWhile Char.isDigit)
  | cs => some (0, cs)

/-- A time of day as seconds and nanoseconds. A sixtieth second is a leap second. -/
def clock? (cs : List Char) : Option ((Nat × Nat) × List Char) := do
  let (hour, cs) ← field? 2 0 23 cs
  let cs ← char? ':' (dropBlanks cs)
  let (minute, cs) ← field? 2 0 59 cs
  let cs ← char? ':' (dropBlanks cs)
  let (second, cs) ← field? 2 0 60 cs
  let (nanos, cs) ← fraction? cs
  let time := hour * 3600 + minute * 60
  if second = 60 then return ((time + 59, nanos + nanosPerSecond), cs)
  else return ((time + second, nanos), cs)

/-- Exactly two digits, the first of them up to `top`. -/
def twoDigits? (top : Nat) : List Char → Option (Nat × List Char)
  | c :: d :: cs =>
    match readNat? [c], readNat? [d] with
    | some m, some n => if m ≤ top then some (10 * m + n, cs) else none
    | _, _ => none
  | _ => none

/-- The sign of an offset; the minus may be the typographic one. -/
def offsetSign? : List Char → Option (Int × List Char)
  | '+' :: cs => some (1, cs)
  | '-' :: cs => some (-1, cs)
  | '\u2212' :: cs => some (-1, cs)
  | _ => none

/-- An offset from UTC in seconds: `Z`, `UTC`, or a sign with hours and minutes. -/
def offset? (cs : List Char) : Option (Int × List Char) :=
  if sameCaseless (String.ofList (cs.take 3)) "utc" then some (0, cs.drop 3)
  else
    match cs with
    | 'Z' :: cs => some (0, cs)
    | 'z' :: cs => some (0, cs)
    | cs => do
      let (sign, cs) ← offsetSign? cs
      let (hours, cs) ← twoDigits? 9 cs
      let (minutes, cs) ← twoDigits? 5 (cs.dropWhile fun c => c == ':' || isBlank c)
      let offset := hours * 3600 + minutes * 60
      guard (offset < secondsPerDay)
      return (sign * offset, cs)

/-- The character between date and time. -/
def between? : List Char → Option (List Char)
  | c :: cs => if c = 't' ∨ c = 'T' ∨ c = ' ' then some cs else none
  | [] => none

/-- The instant that a text writes, if the local time and the instant can be represented. -/
def Instant.parse? (s : String) : Option Instant := do
  let (days, cs) ← date? s.toList
  let cs ← between? cs
  let ((seconds, nanos), cs) ← clock? cs
  let (offset, cs) ← offset? (dropBlanks cs)
  guard (dropBlanks cs = [])
  let written : Instant := ⟨days * secondsPerDay + seconds, nanos⟩
  let t : Instant := ⟨written.seconds - offset, nanos⟩
  guard (written.IsDated ∧ t.IsDated)
  return t

end Paybook.Time
