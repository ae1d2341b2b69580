import Paybook.Proofs.Text.Digits
import Paybook.Proofs.Text.Trimming
import Paybook.Proofs.Time.Civil

/-! # Written times

A time of the years 0 to 9999 reads back from its text with every nanosecond:
`Instant.parse?_toRfc3339`. Each reading step takes what the writing step before it has left. -/

namespace Paybook.Time

open Text

/-! ## Digits -/

section Digits

variable {most low high width n : Nat} {ds rest : List Char}

/-- A run of digits is read up to the most that there may be, or up to its end. -/
theorem digits?_append (hds : ∀ c ∈ ds, c.isDigit = true) (hn : readNat? ds = some n)
    (hlen : ds.length ≤ most) (hrest : ds.length = most ∨ EndsDigits rest) :
    digits? most (ds ++ rest) = some ((n, ds.length), rest) := by
  have hends : EndsDigits (rest.take (most - ds.length)) := by
    rcases hrest with hfull | hends
    · rw [hfull, Nat.sub_self, List.take_zero]
      exact endsDigits_nil
    · intro c hc
      cases rest with
      | nil => simp at hc
      | cons d cs =>
        cases hk : most - ds.length with
        | zero => simp [hk] at hc
        | succ k =>
          rw [hk, List.take_succ_cons] at hc
          exact hends c hc
  have htake : ((ds ++ rest).take most).takeWhile Char.isDigit = ds := by
    rw [List.take_append, List.take_of_length_le hlen]
    exact takeWhile_isDigit hds hends
  rw [digits?, htake, hn, List.drop_left]
  rfl

theorem zeroFilled_eq_cons (width n : Nat) :
    ∃ c cs, zeroFilled width n = c :: cs ∧ c.isDigit = true := by
  have hne : zeroFilled width n ≠ [] := (readNat?_eq_some (readNat?_zeroFilled width n)).1
  obtain ⟨c, cs, hcs⟩ := List.exists_cons_of_ne_nil hne
  exact ⟨c, cs, hcs, isDigit_of_mem_zeroFilled (hcs ▸ List.mem_cons_self)⟩

theorem dropBlanks_zeroFilled (width n : Nat) (rest : List Char) :
    dropBlanks (zeroFilled width n ++ rest) = zeroFilled width n ++ rest := by
  obtain ⟨c, cs, hcs, hc⟩ := zeroFilled_eq_cons width n
  rw [hcs, List.cons_append, dropBlanks, List.dropWhile_cons_of_neg]
  simp [isBlank_of_isDigit hc]

theorem digits?_zeroFilled (hwidth : 0 < width) (hn : n < tenTo width) :
    digits? width (zeroFilled width n ++ rest) = some ((n, width), rest) := by
  have hlen := length_zeroFilled hwidth hn
  have hread : digits? width (zeroFilled width n ++ rest) =
      some ((n, (zeroFilled width n).length), rest) :=
    digits?_append (fun c hc => isDigit_of_mem_zeroFilled hc) (readNat?_zeroFilled width n) hlen.le
      (.inl hlen)
  rwa [hlen] at hread

/-- A field of two digits. -/
theorem field?_zeroFilled (hn : n < 100) (hlow : low ≤ n) (hhigh : n ≤ high) :
    field? 2 low high (zeroFilled 2 n ++ rest) = some (n, rest) := by
  rw [field?, dropBlanks_zeroFilled, digits?_zeroFilled (by decide) hn]
  simp [hlow, hhigh]

theorem year?_zeroFilled (hn : n < 10000) :
    year? (zeroFilled 4 n ++ rest) = some ((n : Int), rest) := by
  obtain ⟨c, cs, hcs, hc⟩ := zeroFilled_eq_cons 4 n
  have hminus : c ≠ '-' := by rintro rfl; cases hc
  have hplus : c ≠ '+' := by rintro rfl; cases hc
  have hread : digits? 4 (zeroFilled 4 n ++ rest) = some ((n, 4), rest) :=
    digits?_zeroFilled (by decide) hn
  rw [year?, dropBlanks_zeroFilled]
  rw [hcs, List.cons_append] at hread ⊢
  split
  · next h => exact absurd (List.cons.inj h).1 hminus
  · next h => exact absurd (List.cons.inj h).1 hplus
  · rw [hread]
    rfl

end Digits

/-! ## Dates -/

theorem Date.IsValid.month_bounds {d : Date} (h : d.IsValid) : 1 ≤ d.month ∧ d.month ≤ 12 := by
  obtain ⟨hone, hle⟩ := h
  have hpos : 0 < daysInMonth d.year d.month := by omega
  unfold daysInMonth at hpos
  split at hpos
  · next hm => simp at hm; omega
  · split at hpos
    · next hm => simp at hm; omega
    · split at hpos <;> omega

theorem Date.IsValid.day_le {d : Date} (h : d.IsValid) : d.day ≤ 31 := by
  refine Nat.le_trans h.2 ?_
  unfold daysInMonth
  repeat' split
  all_goals omega

/-- The years from 0 to 9999 have dates that can be represented. -/
theorem Date.bounds_of_year {days : Int} (h : 0 ≤ (ofDays days).year)
    (h' : (ofDays days).year ≤ 9999) : Instant.firstDay ≤ days ∧ days ≤ Instant.lastDay := by
  have hyear := yearOfEra_lt (dayOfEra_lt days)
  obtain ⟨hle, hge⟩ := year_ofDays days
  unfold marchYear epochShift eraDays at hle hge
  unfold Instant.firstDay Instant.lastDay
  omega

section Reading

variable {c : Char} {cs rest : List Char}

theorem char?_dropBlanks (h : isBlank c = false) : char? c (dropBlanks (c :: cs)) = some cs := by
  rw [dropBlanks, List.dropWhile_cons_of_neg (by simp [h]), char?, if_pos rfl]

/-- A day of the years from 0 to 9999 is read from its date. -/
theorem date?_writeDate {days : Int} (h : 0 ≤ (Date.ofDays days).year)
    (h' : (Date.ofDays days).year ≤ 9999) : date? (writeDate days ++ rest) = some (days, rest) := by
  have hvalid := Date.isValid_ofDays days
  obtain ⟨hmonth, hmonth'⟩ := hvalid.month_bounds
  have hday := hvalid.day_le
  have hyear : ((Date.ofDays days).year.toNat : Int) = (Date.ofDays days).year :=
    Int.toNat_of_nonneg h
  rw [writeDate]
  simp only [writeYear, if_pos (And.intro h h'), List.append_assoc, List.cons_append, date?,
    Option.bind_eq_bind]
  rw [year?_zeroFilled (by omega), Option.bind_some, char?_dropBlanks (by decide),
    Option.bind_some, field?_zeroFilled (by omega) hmonth hmonth', Option.bind_some,
    char?_dropBlanks (by decide), Option.bind_some, field?_zeroFilled (by omega) hvalid.1 hday,
    Option.bind_some, hyear]
  have hdays := Date.toDays_ofDays days
  simp [hvalid, hdays]

/-! ## Times of day -/

theorem fraction?_zeroFilled {width n nanos : Nat} (hwidth : 0 < width) (hle : width ≤ 9)
    (hn : n < tenTo width) (hnanos : n * tenTo (9 - width) = nanos) (hrest : EndsDigits rest) :
    fraction? ('.' :: zeroFilled width n ++ rest) = some (nanos, rest) := by
  have hlen := length_zeroFilled hwidth hn
  have hread : digits? 9 (zeroFilled width n ++ rest) =
      some ((n, (zeroFilled width n).length), rest) :=
    digits?_append (fun c hc => isDigit_of_mem_zeroFilled hc) (readNat?_zeroFilled width n)
      (hlen.trans_le hle) (.inr hrest)
  have hdrop : ([] ++ rest).dropWhile Char.isDigit = rest :=
    dropWhile_isDigit (fun _ h => absurd h List.not_mem_nil) hrest
  rw [List.nil_append] at hdrop
  rw [hlen] at hread
  simp only [List.cons_append, fraction?, hread, Option.bind_eq_bind, Option.bind_some, hdrop,
    hnanos]
  rfl

/-- The nanoseconds are read from the fewest digits that are exact. -/
theorem fraction?_writeFraction {nanos : Nat} (h : nanos < nanosPerSecond) :
    fraction? (writeFraction nanos ++ 'Z' :: rest) = some (nanos, 'Z' :: rest) := by
  have hends : EndsDigits ('Z' :: rest) := endsDigits_cons rfl
  have hn : nanos < 1000000000 := h
  unfold writeFraction
  split
  · next hzero => rw [hzero]; rfl
  have hthree : tenTo 3 = 1000 := rfl
  have hsix : tenTo 6 = 1000000 := rfl
  split
  · next hmilli =>
    exact fraction?_zeroFilled (by decide) (by decide) (by omega)
      (Nat.div_mul_cancel (Nat.dvd_of_mod_eq_zero hmilli)) hends
  split
  · next hmicro =>
    exact fraction?_zeroFilled (by decide) (by decide) (by omega)
      (Nat.div_mul_cancel (Nat.dvd_of_mod_eq_zero hmicro)) hends
  · exact fraction?_zeroFilled (by decide) (by decide) hn (Nat.mul_one nanos) hends

/-- A time of day is read from its text if it is of no leap second. -/
theorem clock?_writeClock {second nanos : Nat} (hs : second < secondsPerDay)
    (hn : nanos < nanosPerSecond) :
    clock? (writeClock second nanos ++ 'Z' :: rest) = some ((second, nanos), 'Z' :: rest) := by
  have hs : second < 86400 := hs
  rw [writeClock]
  simp only [if_neg (Nat.not_le.2 hn), Nat.add_zero, List.append_assoc, List.cons_append, clock?,
    Option.bind_eq_bind]
  rw [field?_zeroFilled (by omega) (Nat.zero_le _) (by omega), Option.bind_some,
    char?_dropBlanks (by decide), Option.bind_some,
    field?_zeroFilled (by omega) (Nat.zero_le _) (by omega), Option.bind_some,
    char?_dropBlanks (by decide), Option.bind_some,
    field?_zeroFilled (by omega) (Nat.zero_le _) (by omega), Option.bind_some,
    fraction?_writeFraction hn, Option.bind_some]
  have hminute : second % 60 ≠ 60 := by omega
  have hsum : second / 3600 * 3600 + second / 60 % 60 * 60 + second % 60 = second := by omega
  simp [hminute, hsum]

end Reading

/-! ## Instants -/

namespace Instant

/-- The year of the instant in UTC. -/
def year (t : Instant) : Int := (Date.ofDays (t.seconds / secondsPerDay)).year

/-- Whether the instant is one of the years 0 to 9999 and of no leap second. -/
structure IsCommon (t : Instant) : Prop where
  year_nonneg : 0 ≤ t.year
  year_le : t.year ≤ 9999
  nanos_lt : t.nanos < nanosPerSecond

instance (t : Instant) : Decidable t.IsCommon :=
  decidable_of_iff (0 ≤ t.year ∧ t.year ≤ 9999 ∧ t.nanos < nanosPerSecond)
    ⟨fun ⟨h, h', h''⟩ => ⟨h, h', h''⟩, fun ⟨h, h', h''⟩ => ⟨h, h', h''⟩⟩

/-- A common time reads back from its text. -/
theorem parse?_toRfc3339 {t : Instant} (h : t.IsCommon) : parse? t.toRfc3339 = some t := by
  obtain ⟨hlow, hhigh⟩ := Date.bounds_of_year h.year_nonneg h.year_le
  have hsecond : (t.seconds % secondsPerDay).toNat < secondsPerDay := by
    unfold secondsPerDay
    omega
  have hseconds : t.seconds / secondsPerDay * secondsPerDay +
      ((t.seconds % secondsPerDay).toNat : Int) = t.seconds := by
    unfold secondsPerDay
    omega
  rw [toRfc3339, parse?, String.toList_ofList, write]
  simp only [List.append_assoc, List.cons_append, Option.bind_eq_bind]
  rw [date?_writeDate h.year_nonneg h.year_le, Option.bind_some, between?, if_pos (by decide),
    Option.bind_some, clock?_writeClock hsecond h.nanos_lt, Option.bind_some]
  have hoffset : offset? (dropBlanks ['Z']) = some (0, []) := by decide
  have hdated : IsDated ⟨t.seconds, t.nanos⟩ := ⟨hlow, hhigh⟩
  rw [hoffset, Option.bind_some]
  simp only [hseconds, Int.sub_zero]
  simp [hdated, dropBlanks]

end Instant

end Paybook.Time
