import Paybook.Time.Civil

/-! # Instants

An instant is a number of whole seconds since 1970-01-01T00:00:00Z and the nanoseconds past them.
A leap second has a thousand million nanoseconds more than the second before it. -/

namespace Paybook.Time

/-- A point in time. -/
@[ext] structure Instant where
  seconds : Int
  nanos : Nat
deriving DecidableEq, Repr, Inhabited

def secondsPerDay : Nat := 86400

def nanosPerSecond : Nat := 1000000000

namespace Instant

/-- Instants are ordered by their seconds and then by their nanoseconds. -/
def before (a b : Instant) : Bool :=
  a.seconds < b.seconds || (a.seconds == b.seconds && a.nanos < b.nanos)

instance : LT Instant := ⟨fun a b => a.before b = true⟩
instance : LE Instant := ⟨fun a b => b.before a = false⟩

instance (a b : Instant) : Decidable (a < b) := inferInstanceAs (Decidable (a.before b = true))
instance (a b : Instant) : Decidable (a ≤ b) := inferInstanceAs (Decidable (b.before a = false))

theorem lt_iff {a b : Instant} :
    a < b ↔ a.seconds < b.seconds ∨ (a.seconds = b.seconds ∧ a.nanos < b.nanos) := by
  show a.before b = true ↔ _
  simp [before]

theorem not_lt {a b : Instant} : ¬a < b ↔ b ≤ a := by
  show ¬(a.before b = true) ↔ a.before b = false
  simp

theorem le_iff {a b : Instant} :
    a ≤ b ↔ a.seconds < b.seconds ∨ (a.seconds = b.seconds ∧ a.nanos ≤ b.nanos) := by
  rw [← not_lt, lt_iff]; omega

/-- The instant a number of nanoseconds after 1970-01-01T00:00:00Z. -/
def ofNanos (n : Int) : Instant := ⟨n / nanosPerSecond, (n % nanosPerSecond).toNat⟩

/-- The instant a number of milliseconds later; the nanoseconds must not be those of a leap
second. -/
def plusMillis (t : Instant) (ms : Int) : Instant :=
  ofNanos (t.seconds * nanosPerSecond + t.nanos + ms * 1000000)

/-- The first second of a day. -/
def ofDays (days : Int) : Instant := ⟨days * secondsPerDay, 0⟩

/-- The last day that has a date, 262142-12-31. -/
def lastDay : Int := 95026236

/-- The first day that has a date, -262143-01-01. -/
def firstDay : Int := -96465292

/-- The last instant that can be represented. -/
def last : Instant := ⟨(lastDay + 1) * secondsPerDay - 1, 999999999⟩

/-- Whether the date of the instant can be represented. -/
def IsDated (t : Instant) : Prop :=
  firstDay ≤ t.seconds / secondsPerDay ∧ t.seconds / secondsPerDay ≤ lastDay

instance (t : Instant) : Decidable t.IsDated :=
  inferInstanceAs (Decidable (firstDay ≤ t.seconds / secondsPerDay ∧
    t.seconds / secondsPerDay ≤ lastDay))

end Instant

end Paybook.Time
