import Paybook.Time.Civil
import Paybook.Time.Instant

/-! # Time zones

Local clocks show the seconds of UTC plus an offset that changes with time. Reading a local time
back may give no instant, where clocks were put forward. -/

namespace Paybook.Time

/-- A zone: the offset that clocks show at each second of UTC, and the second at which clocks are
taken to show a given local second, if they ever do. -/
structure Zone where
  offsetAt : Int → Int
  resolve : Int → Option Int

namespace Zone

/-- The local second at an instant. -/
def localSeconds (z : Zone) (t : Instant) : Int := t.seconds + z.offsetAt t.seconds

/-- Clocks that always keep the same offset. -/
def fixed (offset : Int) : Zone where
  offsetAt _ := offset
  resolve l := some (l - offset)

def utc : Zone := fixed 0

theorem resolve_fixed (offset l : Int) : (fixed offset).resolve l = some (l - offset) := rfl

/-- The earlier of the seconds at which clocks show a local second, of those with the offset that
is kept a day before or a day after. -/
def earliest? (offsetAt : Int → Int) (l : Int) : Option Int :=
  let early := l - offsetAt (l - secondsPerDay)
  let late := l - offsetAt (l + secondsPerDay)
  match early + offsetAt early == l, late + offsetAt late == l with
  | true, true => some (min early late)
  | true, false => some early
  | false, true => some late
  | false, false => none

/-- Clocks with the given offsets, for offsets that change at most once in two days. -/
def ofOffsets (offsetAt : Int → Int) : Zone := ⟨offsetAt, earliest? offsetAt⟩

/-- What is read back is shown by the clocks. -/
theorem shows_of_earliest? {offsetAt : Int → Int} {l t : Int} (h : earliest? offsetAt l = some t) :
    t + offsetAt t = l := by
  simp only [earliest?] at h
  split at h
  · next h₁ h₂ =>
    have h₁ := eq_of_beq h₁
    have h₂ := eq_of_beq h₂
    simp only [Option.some.injEq] at h
    rcases Int.le_total (l - offsetAt (l - secondsPerDay)) (l - offsetAt (l + secondsPerDay))
      with hle | hle
    · rw [Int.min_eq_left hle] at h; subst h; exact h₁
    · rw [Int.min_eq_right hle] at h; subst h; exact h₂
  · next h₁ _ => simp only [Option.some.injEq] at h; subst h; exact eq_of_beq h₁
  · next _ h₂ => simp only [Option.some.injEq] at h; subst h; exact eq_of_beq h₂
  · simp at h

end Zone

/-- A change of clocks: an hour of the `week`-th Sunday of a month, by the clocks before it. -/
structure ClockChange where
  month : Nat
  week : Nat
  hour : Int
deriving DecidableEq, Repr

/-- The local second of the change in a year. -/
def ClockChange.localSecond (c : ClockChange) (year : Int) : Int :=
  Date.toDays ⟨year, c.month, nthSunday year c.month c.week⟩ * secondsPerDay + c.hour * 3600

/-- Clocks that are changed to summer time and back every year; offsets in seconds. Summer time is
mostly ahead of standard time, but it may be behind. -/
structure SummerTime where
  standard : Int
  summer : Int
  start : ClockChange
  finish : ClockChange
deriving DecidableEq, Repr

namespace SummerTime

/-- The second of UTC at which summer time starts in a year. -/
def startsAt (r : SummerTime) (year : Int) : Int := r.start.localSecond year - r.standard

/-- The second of UTC at which summer time ends in a year. -/
def endsAt (r : SummerTime) (year : Int) : Int := r.finish.localSecond year - r.summer

/-- The year of a second. -/
def yearOf (second : Int) : Int := (Date.ofDays (second / secondsPerDay)).year

/-- Whether a second of UTC lies in the summer that starts in a year and ends in the same one. -/
def isWithinYear (r : SummerTime) (year second : Int) : Bool :=
  r.startsAt year ≤ second && second < r.endsAt year

/-- Whether summer time is kept at a second of UTC. Changes may fall outside of the year that they
belong to, so that the years before and after have a say. -/
def isSummer (r : SummerTime) (second : Int) : Bool :=
  let year := yearOf second
  if r.startsAt year ≤ r.endsAt year then
    if second < r.startsAt year then r.isWithinYear (year - 1) second
    else second < r.endsAt year || r.isWithinYear (year + 1) second
  else
    if second < r.endsAt year then
      r.startsAt (year - 1) ≤ second || second < r.endsAt (year - 1)
    else
      r.startsAt year ≤ second &&
        (second < r.endsAt (year + 1) || r.startsAt (year + 1) ≤ second)

def offsetAt (r : SummerTime) (second : Int) : Int :=
  if r.isSummer second then r.summer else r.standard

/-- Whether the month in which summer starts comes before the one in which it ends. -/
def isNorthern (r : SummerTime) : Bool := r.start.month < r.finish.month

/-- The offset at which a local second is read; none where clocks are put forward. A second that
clocks show twice is read by the clocks that are behind. Changes in one month are taken for those of
a summer that goes on over the end of the year. -/
def offsetOf? (r : SummerTime) (l : Int) : Option Int :=
  let year := yearOf l
  let start := r.start.localSecond year
  let started := start + (r.summer - r.standard)
  let finish := r.finish.localSecond year
  let finished := finish - (r.summer - r.standard)
  if r.summer = r.standard then some r.standard
  else if r.standard < r.summer then
    if r.isNorthern then
      if l ≤ start then some r.standard
      else if l < started then none
      else if l < finished then some r.summer
      else some r.standard
    else
      if l < finished then some r.summer
      else if l ≤ finish then some r.standard
      else if l < start then some r.standard
      else if l < started then none
      else some r.summer
  else
    if r.isNorthern then
      if l < started then some r.standard
      else if l < finish then some r.summer
      else if l < finished then none
      else some r.standard
    else
      if l ≤ finish then some r.summer
      else if l < finished then none
      else if l < started then some r.standard
      else some r.summer

/-- The zone that keeps these rules. -/
def toZone (r : SummerTime) : Zone where
  offsetAt := r.offsetAt
  resolve l := (r.offsetOf? l).map (l - ·)

end SummerTime

end Paybook.Time
