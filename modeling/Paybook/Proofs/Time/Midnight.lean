import Mathlib.Algebra.Order.Group.Unbundled.Int
import Mathlib.Data.Int.LeastGreatest
import Mathlib.Order.Bounds.Basic
import Paybook.Time.Day

/-! # Midnights

A day is taken to begin when clocks first show its midnight, and with the midnight of UTC if they
never show it. So the day around an instant has all of that calendar day if clocks come to it by
showing its midnight, and if they show the next midnight and never go back behind it:
`Zone.dayAround_spans`. Where clocks skip a midnight, that of UTC may cut the day before it short:
`Zone.day_cut_short`. -/

namespace Paybook.Time

theorem Instant.mk_zero_le_iff {s : Int} {t : Instant} :
    (⟨s, 0⟩ : Instant) ≤ t ↔ s ≤ t.seconds := by
  simp only [le_iff]
  omega

theorem Window.contains_iff {w : Window} {t : Instant} :
    w.contains t = true ↔ w.start ≤ t ∧ ¬w.stop ≤ t := by
  simp [contains, ← Instant.not_lt (a := t) (b := w.stop)]

namespace Zone

variable {z : Zone} {s l day : Int} {t now : Instant}

/-! ## Reading local times -/

/-- Whether clocks show a local second at a second of UTC. -/
def Shows (z : Zone) (s l : Int) : Prop := s + z.offsetAt s = l

/-- Whether a local second is read as the first second at which clocks show it, or as none if they
never do. Offsets are less than a day. -/
structure ReadsFirst (z : Zone) : Prop where
  offset_lt (s : Int) : |z.offsetAt s| < secondsPerDay
  resolve_eq_some_iff (l s : Int) : z.resolve l = some s ↔ IsLeast {s | z.Shows s l} s

namespace ReadsFirst

theorem bounds (h : z.ReadsFirst) (hs : z.Shows s l) :
    l - secondsPerDay < s ∧ s < l + secondsPerDay := by
  have hoffset := abs_lt.1 (h.offset_lt s)
  unfold Shows at hs
  omega

/-- What is skipped is read as nothing, and only that. -/
theorem resolve_eq_none_iff (h : z.ReadsFirst) : z.resolve l = none ↔ ∀ s, ¬z.Shows s l := by
  constructor
  · intro hnone s hs
    -- Clocks show a local second within a day of it only, so there is a first time.
    obtain ⟨first, hfirst, hle⟩ := Int.exists_least_of_bdd (P := (z.Shows · l))
      ⟨l - secondsPerDay, fun s hs => (h.bounds hs).1.le⟩ ⟨s, hs⟩
    have hsome := (h.resolve_eq_some_iff l first).2 ⟨hfirst, hle⟩
    rw [hnone] at hsome
    cases hsome
  · intro hskipped
    cases hread : z.resolve l with
    | none => rfl
    | some s => exact absurd ((h.resolve_eq_some_iff l s).1 hread).1 (hskipped s)

end ReadsFirst

section Offsets

variable {offsetAt : Int → Int}

/-- Whether any two days have no offsets but those at their start and at their end, as when clocks
are changed at most once in them. -/
def ChangesRarely (offsetAt : Int → Int) : Prop :=
  ∀ l s : Int, l - secondsPerDay ≤ s → s ≤ l + secondsPerDay →
    offsetAt s = offsetAt (l - secondsPerDay) ∨ offsetAt s = offsetAt (l + secondsPerDay)

variable (hlt : ∀ s, |offsetAt s| < secondsPerDay) (hrare : ChangesRarely offsetAt)
include hlt hrare

/-- Clocks show a local second with the offset of a day before or of a day after. -/
theorem eq_early_or_late (hs : s + offsetAt s = l) :
    s = l - offsetAt (l - secondsPerDay) ∨ s = l - offsetAt (l + secondsPerDay) := by
  have hoffset := abs_lt.1 (hlt s)
  have := hrare l s (by omega) (by omega)
  omega

theorem exists_earliest? (hs : s + offsetAt s = l) :
    ∃ first, earliest? offsetAt l = some first := by
  rcases eq_early_or_late hlt hrare hs with rfl | rfl
  all_goals
    rw [earliest?, beq_iff_eq.2 hs]
    split <;> simp_all

theorem le_of_earliest? {first : Int} (h : earliest? offsetAt l = some first)
    (hs : s + offsetAt s = l) : first ≤ s := by
  have heither := eq_early_or_late hlt hrare hs
  rw [earliest?] at h
  split at h
  · cases h
    rcases heither with rfl | rfl
    · exact min_le_left _ _
    · exact min_le_right _ _
  · next _ hlate =>
    cases h
    rcases heither with rfl | rfl
    · exact le_rfl
    · rw [beq_iff_eq.2 hs] at hlate
      cases hlate
  · next hearly _ =>
    cases h
    rcases heither with rfl | rfl
    · rw [beq_iff_eq.2 hs] at hearly
      cases hearly
    · exact le_rfl
  · cases h

/-- Rarely changed clocks are read back at the first time that they show. -/
theorem readsFirst_ofOffsets : (ofOffsets offsetAt).ReadsFirst where
  offset_lt := hlt
  resolve_eq_some_iff l s := by
    change earliest? offsetAt l = some s ↔ _
    have hleast : ∀ {first}, earliest? offsetAt l = some first →
        IsLeast {s | (ofOffsets offsetAt).Shows s l} first := fun h =>
      ⟨shows_of_earliest? h, fun _ hs => le_of_earliest? hlt hrare h hs⟩
    refine ⟨hleast, fun hs => ?_⟩
    obtain ⟨first, hfirst⟩ := exists_earliest? hlt hrare hs.1
    rw [hfirst, (hleast hfirst).unique hs]

end Offsets

/-- Clocks that are changed once, at a second of UTC. -/
def changedAt (second before after : Int) : Zone :=
  ofOffsets fun s => if s < second then before else after

theorem readsFirst_changedAt (second : Int) {before after : Int}
    (hbefore : |before| < secondsPerDay) (hafter : |after| < secondsPerDay) :
    (changedAt second before after).ReadsFirst := by
  refine readsFirst_ofOffsets (fun s => ?_) fun l s hlower hupper => ?_
  · split <;> assumption
  · split <;> split <;> grind

/-! ## The begin of a day -/

/-- Whether a day has begun: clocks have shown its midnight, or they never do and UTC has come to
its own. -/
def HasBegun (z : Zone) (day : Int) (t : Instant) : Prop :=
  (∃ s ≤ t.seconds, z.Shows s (day * secondsPerDay)) ∨
    (∀ s, ¬z.Shows s (day * secondsPerDay)) ∧ day * secondsPerDay ≤ t.seconds

/-- A day has begun at the instants from its midnight on. A midnight before the first date, which is
read as one of UTC, too, comes before all of them. -/
theorem midnight_le_iff (h : z.ReadsFirst) (hfirst : Instant.firstDay ≤ day)
    (hlast : day ≤ Instant.lastDay) (ht : t.IsDated) :
    z.midnight day ≤ t ↔ z.HasBegun day t := by
  change (⟨((z.resolve _).filter _).getD _, 0⟩ : Instant) ≤ t ↔ _
  rw [Instant.mk_zero_le_iff]
  cases hread : z.resolve (day * secondsPerDay) with
  | none =>
    have hskipped := h.resolve_eq_none_iff.1 hread
    simp [HasBegun, hskipped]
  | some s =>
    obtain ⟨hs, hleast⟩ := (h.resolve_eq_some_iff _ s).1 hread
    have hbegun : z.HasBegun day t ↔ s ≤ t.seconds := by
      constructor
      · rintro (⟨s', hle, hs'⟩ | ⟨hskipped, -⟩)
        · exact (hleast hs').trans hle
        · exact absurd hs (hskipped s)
      · exact fun hle => .inl ⟨s, hle, hs⟩
    rw [hbegun, Option.filter_some]
    split
    · rfl
    · next hundated =>
      rw [decide_eq_true_iff] at hundated
      obtain ⟨hlower, hupper⟩ := h.bounds hs
      simp only [Instant.IsDated, Instant.firstDay, Instant.lastDay, secondsPerDay,
        Option.getD_none] at *
      omega

/-! ## Clocks at midnight -/

/-- Whether clocks come to a day by showing its midnight, and show only earlier times until then. -/
def Enters (z : Zone) (day : Int) : Prop :=
  ∃ s, z.Shows s (day * secondsPerDay) ∧ ∀ s' < s, s' + z.offsetAt s' < day * secondsPerDay

/-- Whether clocks show the midnight of a day, and never an earlier time after that. -/
def Keeps (z : Zone) (day : Int) : Prop :=
  (∃ s, z.Shows s (day * secondsPerDay)) ∧
    ∀ s s', z.Shows s (day * secondsPerDay) → s ≤ s' → day * secondsPerDay ≤ s' + z.offsetAt s'

theorem le_localDay_iff : day ≤ z.localDay t ↔ day * secondsPerDay ≤ z.localSeconds t :=
  Int.le_ediv_iff_mul_le (by decide)

theorem Enters.hasBegun (h : z.Enters day) (ht : day ≤ z.localDay t) : z.HasBegun day t := by
  obtain ⟨s, hs, hearlier⟩ := h
  refine .inl ⟨s, ?_, hs⟩
  by_contra hlt
  exact (hearlier t.seconds (not_le.1 hlt)).not_ge (le_localDay_iff.1 ht)

theorem Keeps.le_localDay (h : z.Keeps day) (ht : z.HasBegun day t) : day ≤ z.localDay t := by
  obtain ⟨⟨s, hs⟩, hlater⟩ := h
  rcases ht with ⟨s', hle, hs'⟩ | ⟨hskipped, -⟩
  · exact le_localDay_iff.2 (hlater s' t.seconds hs' hle)
  · exact absurd hs (hskipped s)

/-! ## Clocks that are changed once -/

section Changed

variable {second before after : Int}

theorem shows_changedAt_iff : (changedAt second before after).Shows s l ↔
    s < second ∧ s + before = l ∨ second ≤ s ∧ s + after = l := by
  change s + (if s < second then before else after) = l ↔ _
  split <;> omega

theorem changedAt_lt_iff : s + (changedAt second before after).offsetAt s < l ↔
    s < second ∧ s + before < l ∨ second ≤ s ∧ s + after < l := by
  change s + (if s < second then before else after) < l ↔ _
  split <;> omega

/-- Clocks enter every day but one whose midnight they skip. -/
theorem enters_changedAt_iff : (changedAt second before after).Enters day ↔
    ¬(second + before ≤ day * secondsPerDay ∧ day * secondsPerDay < second + after) := by
  simp only [Enters, shows_changedAt_iff, changedAt_lt_iff]
  constructor
  · rintro ⟨s, hs, -⟩
    omega
  · intro hshown
    by_cases hbefore : day * secondsPerDay < second + before
    · exact ⟨day * secondsPerDay - before, by omega, by omega⟩
    · exact ⟨day * secondsPerDay - after, by omega, by omega⟩

/-- Clocks keep to every day but one whose midnight they skip or go back behind. -/
theorem keeps_changedAt_iff : (changedAt second before after).Keeps day ↔
    ¬(second + before ≤ day * secondsPerDay ∧ day * secondsPerDay < second + after) ∧
    ¬(second + after < day * secondsPerDay ∧ day * secondsPerDay < second + before) := by
  simp only [Keeps, ← Int.not_lt, shows_changedAt_iff, changedAt_lt_iff]
  constructor
  · rintro ⟨⟨s, hs⟩, hlater⟩
    refine ⟨by omega, fun hback => ?_⟩
    exact hlater (day * secondsPerDay - before) second (by omega) (by omega) (by omega)
  · rintro ⟨hshown, hkept⟩
    refine ⟨?_, by omega⟩
    by_cases hbefore : day * secondsPerDay < second + before
    · exact ⟨day * secondsPerDay - before, by omega⟩
    · exact ⟨day * secondsPerDay - after, by omega⟩

end Changed

/-! ## The day around an instant -/

/-- In every zone, the day around an instant has the instants at which this day has begun and the
next one has not. It has all that clocks count to the day if they enter it by its midnight and keep
to the next one, and nothing else if they keep to its midnight and enter the next day by
midnight. -/
theorem dayAround_spans (h : z.ReadsFirst) (hfirst : Instant.firstDay ≤ z.localDay now)
    (hnext : z.localDay now < Instant.lastDay) :
    ∃ window, z.dayAround? now = some window ∧
      (∀ t, t.IsDated → (window.contains t = true ↔
        z.HasBegun (z.localDay now) t ∧ ¬z.HasBegun (z.localDay now + 1) t)) ∧
      (z.Enters (z.localDay now) → z.Keeps (z.localDay now + 1) →
        ∀ t, t.IsDated → z.localDay t = z.localDay now → window.contains t = true) ∧
      (z.Keeps (z.localDay now) → z.Enters (z.localDay now + 1) →
        ∀ t, t.IsDated → window.contains t = true → z.localDay t = z.localDay now) := by
  have hcontains : ∀ t, t.IsDated → ((z.dayAround now).contains t = true ↔
      z.HasBegun (z.localDay now) t ∧ ¬z.HasBegun (z.localDay now + 1) t) := by
    intro t ht
    have hbegun := midnight_le_iff h hfirst hnext.le ht
    have hended := midnight_le_iff h (Int.le_add_one hfirst) hnext ht
    rw [← hbegun, ← hended, Window.contains_iff, dayAround, if_pos hnext]
  refine ⟨z.dayAround now, if_pos ⟨hfirst, hnext.le⟩, hcontains, ?_, ?_⟩
  · intro henters hkeeps t ht hday
    refine (hcontains t ht).2 ⟨henters.hasBegun hday.ge, fun hbegun => ?_⟩
    have := hkeeps.le_localDay hbegun
    omega
  · intro hkeeps henters t ht hmem
    obtain ⟨hbegun, hnot⟩ := (hcontains t ht).1 hmem
    refine le_antisymm ?_ (hkeeps.le_localDay hbegun)
    by_contra hlt
    exact hnot (henters.hasBegun (not_le.1 hlt))

/-- The day on which clocks are put forward from two to three has 23 hours, and they are all of
it. -/
theorem dayAround_spans_of_short_day :
    let z := changedAt 1710054000 (-18000) (-14400)
    let now : Instant := ⟨1710048600, 0⟩
    let window : Window := ⟨⟨1710046800, 0⟩, ⟨1710129600, 0⟩⟩
    z.ReadsFirst ∧ Instant.firstDay ≤ z.localDay now ∧ z.localDay now < Instant.lastDay ∧
    z.Enters (z.localDay now) ∧ z.Keeps (z.localDay now + 1) ∧ z.dayAround? now = some window ∧
    (∀ t, t.IsDated → z.localDay t = z.localDay now → window.contains t = true) ∧
    window.contains now = true := by
  intro z now window
  have hz : z.ReadsFirst := readsFirst_changedAt _ (by decide) (by decide)
  have hfirst : Instant.firstDay ≤ z.localDay now := by decide
  have hnext : z.localDay now < Instant.lastDay := by decide
  have henters : z.Enters (z.localDay now) := enters_changedAt_iff.2 (by decide)
  have hkeeps : z.Keeps (z.localDay now + 1) := keeps_changedAt_iff.2 (by decide)
  obtain ⟨window', hwindow, -, hcontains, -⟩ := dayAround_spans hz hfirst hnext
  have hsame : z.dayAround? now = some window := by decide
  obtain rfl : window' = window := Option.some.inj (hwindow.symm.trans hsame)
  have hall := hcontains henters hkeeps
  exact ⟨hz, hfirst, hnext, henters, hkeeps, hsame, hall, hall now (by decide) rfl⟩

/-- Clocks three hours behind UTC are put forward at midnight, which they skip. The last three hours
of the day before that are not in the day around them. -/
theorem day_cut_short :
    let z := changedAt 1540090800 (-10800) (-7200)
    let now : Instant := ⟨1540085400, 0⟩
    z.ReadsFirst ∧ Instant.firstDay ≤ z.localDay now ∧ z.localDay now < Instant.lastDay ∧
    z.dayAround? now = some ⟨⟨1540004400, 0⟩, ⟨1540080000, 0⟩⟩ ∧
    ¬now < (⟨1540080000, 0⟩ : Instant) :=
  ⟨readsFirst_changedAt _ (by decide) (by decide), by decide, by decide, by decide, by decide⟩

/-- So it is with clocks that are put forward at midnight in every year. -/
example : (SummerTime.toZone ⟨-10800, -7200, ⟨10, 3, 0⟩, ⟨2, 3, 0⟩⟩).dayAround ⟨1540085400, 0⟩ =
    ⟨⟨1540004400, 0⟩, ⟨1540080000, 0⟩⟩ := by
  decide

end Zone

end Paybook.Time
