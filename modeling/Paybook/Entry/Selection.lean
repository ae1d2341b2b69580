import Paybook.Entry.Basic

/-! # Selections of entries

A selection is a conjunction of conditions; one that is not set selects everything. The window of
creation times includes its start and not its end. -/

namespace Paybook

open Time

/-- Conditions on an entry. -/
structure Selection where
  user : Option Nat := none
  order : Option Nat := none
  status : Option Status := none
  kinds : Option (List EntryKind) := none
  createdFrom : Option Instant := none
  createdUntil : Option Instant := none
deriving DecidableEq, Repr

namespace Selection

/-- Whether an entry meets every condition. -/
def selects (s : Selection) (e : Entry) : Bool :=
  s.user.all (e.user == ·) &&
  s.order.all (e.order == some ·) &&
  s.status.all (e.status == ·) &&
  s.kinds.all (·.contains e.kind) &&
  s.createdFrom.all (fun t => decide (t ≤ e.createdAt)) &&
  s.createdUntil.all (fun t => decide (e.createdAt < t))

/-- The selection of everything. -/
def everything : Selection := {}

theorem selects_everything (e : Entry) : everything.selects e = true := rfl

theorem selects_iff {s : Selection} {e : Entry} : s.selects e = true ↔
    (∀ u, s.user = some u → e.user = u) ∧ (∀ o, s.order = some o → e.order = some o) ∧
    (∀ st, s.status = some st → e.status = st) ∧
    (∀ ks, s.kinds = some ks → e.kind ∈ ks) ∧
    (∀ t, s.createdFrom = some t → t ≤ e.createdAt) ∧
    (∀ t, s.createdUntil = some t → e.createdAt < t) := by
  simp only [selects, Bool.and_eq_true, and_assoc]
  refine and_congr ?_ (and_congr ?_ (and_congr ?_ (and_congr ?_ (and_congr ?_ ?_))))
  · cases s.user <;> simp
  · cases s.order <;> simp
  · cases s.status <;> simp
  · cases s.kinds <;> simp
  · cases s.createdFrom <;> simp
  · cases s.createdUntil <;> simp

end Selection

end Paybook
