import Paybook.Store.Basic

/-! # What never changes about an entry

An entry keeps what its draft said, its identifier and the time it was made: its `origin`. Changes
are told apart by what they make of a pending entry, `Change.result`; `apply_eq_ok` says that they
make nothing of any other one. -/

namespace Paybook

open Time

/-- What an entry is made with. -/
structure Origin where
  id : Nat
  user : Nat
  order : Option Nat
  amount : Amount
  kind : EntryKind
  method : Method
  createdAt : Instant
deriving DecidableEq, Repr

def Entry.origin (e : Entry) : Origin where
  id := e.id
  user := e.user
  order := e.order
  amount := e.amount
  kind := e.kind
  method := e.method
  createdAt := e.createdAt

namespace Entry

@[simp] theorem origin_bumped (e : Entry) : (Store.bumped e).origin = e.origin := rfl

@[simp] theorem status_bumped (e : Entry) : (Store.bumped e).status = e.status := rfl

@[simp] theorem id_bumped (e : Entry) : (Store.bumped e).id = e.id := rfl

theorem id_eq_of_origin {e e' : Entry} (h : e.origin = e'.origin) : e.id = e'.id :=
  congrArg Origin.id h

theorem user_eq_of_origin {e e' : Entry} (h : e.origin = e'.origin) : e.user = e'.user :=
  congrArg Origin.user h

theorem order_eq_of_origin {e e' : Entry} (h : e.origin = e'.origin) : e.order = e'.order :=
  congrArg Origin.order h

theorem amount_eq_of_origin {e e' : Entry} (h : e.origin = e'.origin) : e.amount = e'.amount :=
  congrArg Origin.amount h

theorem kind_eq_of_origin {e e' : Entry} (h : e.origin = e'.origin) : e.kind = e'.kind :=
  congrArg Origin.kind h

theorem method_eq_of_origin {e e' : Entry} (h : e.origin = e'.origin) : e.method = e'.method :=
  congrArg Origin.method h

theorem isFinal_eq_false {e : Entry} : e.isFinal = false ↔ e.status = .pending := by
  cases h : e.status <;> simp [isFinal, Status.isFinal, h]

theorem isFinal_of_completed {e : Entry} (h : e.status = .completed) : e.isFinal = true := by
  simp [isFinal, Status.isFinal, h]

theorem checkPending_eq_ok {e : Entry} {u : Unit} :
    e.checkPending = .ok u ↔ e.status = .pending := by
  rw [← isFinal_eq_false, checkPending]
  cases h : e.isFinal <;> simp

end Entry

namespace Change

/-- The reference that a change sets, if it sets one. -/
def reference? : Change → Option String
  | .complete reference => some reference
  | .fail _ | .cancel _ | .note _ => none

/-- What the change makes of a pending entry. -/
def result : Change → Entry → Instant → Entry
  | .complete reference, e, now => { e.finished .completed now with reference := some reference }
  | .fail reason, e, now =>
    { e.finished .failed now with
      description := Entry.withNote e.description ("Failed: " ++ reason) }
  | .cancel reason, e, now =>
    { e.finished .cancelled now with
      description := Entry.withNote e.description ("Cancelled: " ++ reason) }
  | .note text, e, now =>
    { e with description := Entry.withNote e.description text, updatedAt := now }

variable {c : Change} {e e' : Entry} {now : Instant}

theorem apply_eq (c : Change) (e : Entry) (now : Instant) :
    c.apply e now = e.checkPending >>= fun _ => .ok (c.result e now) := by cases c <;> rfl

/-- A change succeeds exactly on a pending entry. -/
theorem apply_eq_ok : c.apply e now = .ok e' ↔ e.status = .pending ∧ c.result e now = e' := by
  rw [apply_eq, ← Entry.checkPending_eq_ok (u := ())]
  cases e.checkPending <;> simp [bind, Except.bind]

@[simp] theorem origin_result (c : Change) (e : Entry) (now : Instant) :
    (c.result e now).origin = e.origin := by cases c <;> rfl

@[simp] theorem version_result (c : Change) (e : Entry) (now : Instant) :
    (c.result e now).version = e.version := by cases c <;> rfl

@[simp] theorem status_result (c : Change) (e : Entry) (now : Instant) :
    (c.result e now).status = c.status?.getD e.status := by cases c <;> rfl

theorem processedAt_result {st : Status} (h : c.status? = some st) (e : Entry) (now : Instant) :
    (c.result e now).processedAt = some now := by
  cases c with
  | complete | fail | cancel => rfl
  | note => cases h

end Change

end Paybook
