import Paybook.Time.Zone

/-! # The local day

Daily limits hold for the calendar day that clocks show: from its midnight to the next one. -/

namespace Paybook.Time

/-- The times from `start` on and before `stop`. -/
structure Window where
  start : Instant
  stop : Instant
deriving DecidableEq, Repr

/-- Whether an instant lies in the window. -/
def Window.contains (w : Window) (t : Instant) : Bool := decide (w.start ≤ t) && decide (t < w.stop)

namespace Zone

/-- The calendar day that clocks show at an instant, in days since 1970-01-01. -/
def localDay (z : Zone) (t : Instant) : Int := z.localSeconds t / secondsPerDay

/-- The instant at which a day begins. A midnight that clocks skip, or whose instant has no date, is
read as one of UTC. -/
def midnight (z : Zone) (day : Int) : Instant :=
  let l := day * secondsPerDay
  ⟨((z.resolve l).filter fun t => decide (Instant.IsDated ⟨t, 0⟩)).getD l, 0⟩

/-- The calendar day around an instant. The last day that has a date ends with the last instant. -/
def dayAround (z : Zone) (t : Instant) : Window :=
  let day := z.localDay t
  ⟨z.midnight day, if day < Instant.lastDay then z.midnight (day + 1) else Instant.last⟩

/-- The calendar day around an instant, if clocks show a date then that can be represented. -/
def dayAround? (z : Zone) (t : Instant) : Option Window :=
  if Instant.IsDated ⟨z.localSeconds t, t.nanos⟩ then some (z.dayAround t) else none

end Zone

end Paybook.Time
