/-! # Days and calendar dates

Days are counted from 1970-01-01 in the Gregorian calendar, continued in both directions. The
calendar repeats after an era of 400 years; within an era years begin with March, so that the leap
day comes last. -/

namespace Paybook.Time

/-- A date of the Gregorian calendar; year 0 is the one before year 1. -/
structure Date where
  year : Int
  month : Nat
  day : Nat
deriving DecidableEq, Repr

/-- The days of an era of 400 years. -/
def eraDays : Nat := 146097

/-- The days from 0000-03-01, the first day of an era, to 1970-01-01. -/
def epochShift : Int := 719468

def isLeapYear (year : Int) : Bool :=
  year % 4 == 0 && (year % 100 != 0 || year % 400 == 0)

/-- The number of days of a month, and 0 for a month that does not exist. -/
def daysInMonth (year : Int) (month : Nat) : Nat :=
  if month ∈ [1, 3, 5, 7, 8, 10, 12] then 31
  else if month ∈ [4, 6, 9, 11] then 30
  else if month = 2 then (if isLeapYear year then 29 else 28)
  else 0

namespace Date

/-- Whether the calendar has this date. -/
def IsValid (d : Date) : Prop := 1 ≤ d.day ∧ d.day ≤ daysInMonth d.year d.month

instance (d : Date) : Decidable d.IsValid :=
  inferInstanceAs (Decidable (1 ≤ d.day ∧ d.day ≤ daysInMonth d.year d.month))

/-- The number of days from 1970-01-01 to a date. -/
def toDays (d : Date) : Int :=
  let year := if d.month ≤ 2 then d.year - 1 else d.year
  let yearOfEra := (year % 400).toNat
  let dayOfYear := (153 * ((d.month + 9) % 12) + 2) / 5 + d.day - 1
  let dayOfEra := 365 * yearOfEra + yearOfEra / 4 - yearOfEra / 100 + dayOfYear
  eraDays * (year / 400) + dayOfEra - epochShift

/-- The date a number of days after 1970-01-01. -/
def ofDays (days : Int) : Date :=
  let shifted := days + epochShift
  let dayOfEra := (shifted % eraDays).toNat
  let yearOfEra := (dayOfEra - dayOfEra / 1460 + dayOfEra / 36524 - dayOfEra / 146096) / 365
  let dayOfYear := dayOfEra - (365 * yearOfEra + yearOfEra / 4 - yearOfEra / 100)
  let monthOfYear := (5 * dayOfYear + 2) / 153
  let month := if monthOfYear < 10 then monthOfYear + 3 else monthOfYear - 9
  let year := 400 * (shifted / eraDays) + yearOfEra
  ⟨if month ≤ 2 then year + 1 else year, month, dayOfYear - (153 * monthOfYear + 2) / 5 + 1⟩

end Date

/-- The day of the week of a day, from 0 for Sunday. 1970-01-01 was a Thursday. -/
def weekday (days : Int) : Nat := ((days + 4) % 7).toNat

/-- The day of the month of its `n`-th Sunday; of the last one if there is no fifth. -/
def nthSunday (year : Int) (month n : Nat) : Nat :=
  let first := (7 - weekday (Date.toDays ⟨year, month, 1⟩)) % 7 + 1
  let day := first + 7 * (n - 1)
  if daysInMonth year month < day then day - 7 else day

end Paybook.Time
