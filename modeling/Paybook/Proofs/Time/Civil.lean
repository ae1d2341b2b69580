import Mathlib.Tactic.ByContra
import Mathlib.Tactic.IntervalCases
import Paybook.Time.Civil

/-! # The calendar

Days and dates say the same: a day is counted back from its date, and the date is one that the
calendar has. Both rest on where the years of an era and the months of a year start. -/

namespace Paybook.Time.Date

/-! ## Years of an era -/

/-- The days of an era before a year of it. -/
def yearStart (year : Nat) : Nat := 365 * year + year / 4 - year / 100

/-- The days of an era without its leap days, which are the last ones of four, of a hundred and of
four hundred years. -/
def withoutLeapDays (day : Nat) : Nat := day - day / 1460 + day / 36524 - day / 146096

/-- The year of a day of an era. -/
def yearOfEra (day : Nat) : Nat := withoutLeapDays day / 365

theorem withoutLeapDays_mono {a b : Nat} (h : a ≤ b) : withoutLeapDays a ≤ withoutLeapDays b := by
  induction h with
  | refl => exact Nat.le_refl _
  | @step m _ ih =>
    refine Nat.le_trans ih ?_
    unfold withoutLeapDays
    omega

/-- The year changes where it starts, and nowhere else. -/
theorem withoutLeapDays_yearStart : ∀ year < 400, 365 * year ≤ withoutLeapDays (yearStart year) ∧
    withoutLeapDays (yearStart (year + 1) - 1) < 365 * (year + 1) := by
  decide +kernel

variable {day : Nat}

theorem yearOfEra_lt (h : day < eraDays) : yearOfEra day < 400 := by
  have := withoutLeapDays_mono (Nat.le_of_lt_succ h)
  have : withoutLeapDays 146096 = 145999 := rfl
  unfold yearOfEra
  omega

theorem yearStart_le (h : day < eraDays) : yearStart (yearOfEra day) ≤ day := by
  have hlt := yearOfEra_lt h
  by_contra hnot
  cases hyear : yearOfEra day with
  | zero => simp [hyear, yearStart] at hnot
  | succ year =>
    rw [hyear] at hlt hnot
    have hbefore := (withoutLeapDays_yearStart year (by omega)).2
    have := withoutLeapDays_mono (a := day) (b := yearStart (year + 1) - 1) (by omega)
    unfold yearOfEra at hyear
    omega

/-- A year ends where the next one starts; the last one of an era has one day more. -/
theorem lt_yearStart (h : day < eraDays) :
    day < yearStart (yearOfEra day + 1) ∨ yearOfEra day = 399 := by
  by_contra hnot
  obtain ⟨hge, hlast⟩ := not_or.1 hnot
  have hlt := yearOfEra_lt h
  have hstart := (withoutLeapDays_yearStart (yearOfEra day + 1) (by omega)).1
  have := withoutLeapDays_mono (a := yearStart (yearOfEra day + 1)) (b := day) (by omega)
  have : withoutLeapDays day < 365 * (yearOfEra day + 1) := by
    unfold yearOfEra
    omega
  omega

/-- A year has 365 days, or one more before a leap year. -/
theorem yearStart_succ (year : Nat) : yearStart (year + 1) = yearStart year + 365 ∨
    yearStart (year + 1) = yearStart year + 366 ∧ (year + 1) % 4 = 0 ∧ (year + 1) % 100 ≠ 0 := by
  unfold yearStart
  by_cases hfour : (year + 1) % 4 = 0
  · by_cases hhundred : (year + 1) % 100 = 0 <;> omega
  · have hhundred : (year + 1) / 100 = year / 100 := by omega
    omega

/-- The last day of a year of 366 days is the leap day of the next one. -/
theorem sub_yearStart_lt (h : day < eraDays) :
    day - yearStart (yearOfEra day) < 365 ∨ day - yearStart (yearOfEra day) = 365 ∧
      (yearOfEra day + 1) % 4 = 0 ∧
      ((yearOfEra day + 1) % 100 ≠ 0 ∨ (yearOfEra day + 1) % 400 = 0) := by
  have hday : day < 146097 := h
  rcases lt_yearStart h with hlt | hlast
  · rcases yearStart_succ (yearOfEra day) with hnext | ⟨hnext, hfour, hhundred⟩
    · omega
    · omega
  · have : yearStart 399 = 145731 := rfl
    rw [hlast]
    omega

/-! ## Months of a year -/

/-- The month of a day of a year, and its number there; years begin with March. -/
def monthOfYear (day : Nat) : Nat := (5 * day + 2) / 153

/-- The days of a year before a month of it. -/
def monthStart (month : Nat) : Nat := (153 * month + 2) / 5

theorem monthOfYear_le : ∀ day < 366, monthOfYear day ≤ 11 := by decide +kernel

theorem monthStart_le : ∀ day < 366, monthStart (monthOfYear day) ≤ day := by decide +kernel

/-- The length of a month that begins in a year; February is the last one. -/
def monthDays (month : Nat) : Nat := [31, 30, 31, 30, 31, 31, 30, 31, 30, 31, 31, 29].getD month 0

theorem lt_monthDays : ∀ day < 366,
    day - monthStart (monthOfYear day) < monthDays (monthOfYear day) := by decide +kernel

/-- The twenty-ninth of February is the last day of a long year. -/
theorem lt_monthDays_of_lt : ∀ day < 365, monthOfYear day = 11 →
    day - monthStart (monthOfYear day) < 28 := by decide +kernel

/-! ## Days and dates -/

/-- The number of a month that is counted from March on. -/
def monthNumber (month : Nat) : Nat := if month < 10 then month + 3 else month - 9

/-- The date of a day of a month, both counted from 0 on, of a year that begins with March. -/
def ofMarch (year : Int) (month day : Nat) : Date :=
  ⟨if monthNumber month ≤ 2 then year + 1 else year, monthNumber month, day + 1⟩

theorem toDays_ofMarch (year : Int) {month : Nat} (h : month ≤ 11) (day : Nat) :
    (ofMarch year month day).toDays =
      eraDays * (year / 400) +
        ((yearStart (year % 400).toNat + (monthStart month + day) : Nat) : Int) - epochShift := by
  have hmonth : (monthNumber month + 9) % 12 = month := by
    unfold monthNumber
    split <;> omega
  by_cases hyear : monthNumber month ≤ 2
  · simp only [toDays, ofMarch, if_pos hyear, hmonth, Int.add_sub_cancel]
    rfl
  · simp only [toDays, ofMarch, if_neg hyear, hmonth]
    rfl

/-- The day after the twenty-eighth of February makes a leap year of the next one. -/
theorem isValid_ofMarch {year : Int} {month day : Nat} (hmonth : month ≤ 11)
    (hday : day < monthDays month)
    (hleap : month = 11 → day < 28 ∨ isLeapYear (year + 1) = true) :
    (ofMarch year month day).IsValid := by
  refine ⟨Nat.le_add_left 1 day, ?_⟩
  interval_cases month
  case «11» =>
    change day + 1 ≤ if isLeapYear (year + 1) then 29 else 28
    split
    · exact hday
    · next hnot => exact (hleap rfl).resolve_right hnot
  all_goals exact hday

section Days

variable (n : Int)

/-- The day of an era. -/
def dayOfEra : Nat := ((n + epochShift) % eraDays).toNat

/-- The day of a year that begins with March. -/
def dayOfYear : Nat := dayOfEra n - yearStart (yearOfEra (dayOfEra n))

/-- The year that begins with March. -/
def marchYear : Int := 400 * ((n + epochShift) / eraDays) + yearOfEra (dayOfEra n)

theorem ofDays_eq : ofDays n = ofMarch (marchYear n) (monthOfYear (dayOfYear n))
    (dayOfYear n - monthStart (monthOfYear (dayOfYear n))) := rfl

theorem year_ofDays : marchYear n ≤ (ofDays n).year ∧ (ofDays n).year ≤ marchYear n + 1 := by
  rw [ofDays_eq, ofMarch]
  dsimp only
  split <;> omega

theorem dayOfEra_lt : dayOfEra n < eraDays := by
  unfold dayOfEra eraDays
  omega

theorem dayOfYear_lt : dayOfYear n < 366 := by
  rcases sub_yearStart_lt (dayOfEra_lt n) with h | ⟨h, -⟩
  · exact Nat.lt_succ_of_lt h
  · exact Nat.lt_succ_of_le h.le

/-- A day is counted back from its date. -/
theorem toDays_ofDays : (ofDays n).toDays = n := by
  have hyear := yearOfEra_lt (dayOfEra_lt n)
  have hstart := yearStart_le (dayOfEra_lt n)
  have hmonth := monthStart_le _ (dayOfYear_lt n)
  have hera : marchYear n / 400 = (n + epochShift) / eraDays := by
    unfold marchYear
    omega
  have hmod : (marchYear n % 400).toNat = yearOfEra (dayOfEra n) := by
    unfold marchYear
    omega
  rw [ofDays_eq, toDays_ofMarch _ (monthOfYear_le _ (dayOfYear_lt n)), hera, hmod,
    Nat.add_sub_cancel' hmonth]
  unfold dayOfYear
  rw [Nat.add_sub_cancel' hstart]
  unfold dayOfEra eraDays
  omega

/-- The date of a day is one that the calendar has. -/
theorem isValid_ofDays : (ofDays n).IsValid := by
  have hlt := dayOfYear_lt n
  rw [ofDays_eq]
  refine isValid_ofMarch (monthOfYear_le _ hlt) (lt_monthDays _ hlt) fun hmonth => ?_
  rcases sub_yearStart_lt (dayOfEra_lt n) with h | ⟨-, hfour, hhundred⟩
  · exact .inl (lt_monthDays_of_lt _ h hmonth)
  · refine .inr ?_
    unfold isLeapYear marchYear
    simp only [Bool.and_eq_true, Bool.or_eq_true, beq_iff_eq, bne_iff_ne]
    omega

end Days

end Paybook.Time.Date
