import Paybook.Entry.Labels
import Paybook.Money
import Paybook.Time.Instant

/-! # Entries

An entry books one movement of money. Whoever makes it gives a draft; the store gives it an
identifier and the time. Afterwards only its status, its reference and its description change, and
nothing any more once its status is final. -/

namespace Paybook

open Time

/-- What the maker of an entry decides. -/
structure Draft where
  user : Nat
  order : Option Nat
  amount : Amount
  kind : EntryKind
  method : Method
  description : String
deriving DecidableEq, Repr

/-- An entry of the book. -/
structure Entry where
  id : Nat
  user : Nat
  order : Option Nat
  amount : Amount
  kind : EntryKind
  status : Status
  method : Method
  reference : Option String
  description : String
  createdAt : Instant
  updatedAt : Instant
  processedAt : Option Instant
  /-- The number of updates of the stored entry. -/
  version : Nat
deriving DecidableEq, Repr

namespace Entry

/-- The entry that a draft becomes. It starts out pending. -/
def ofDraft (id : Nat) (draft : Draft) (now : Instant) : Entry where
  id := id
  user := draft.user
  order := draft.order
  amount := draft.amount
  kind := draft.kind
  status := .pending
  method := draft.method
  reference := none
  description := draft.description
  createdAt := now
  updatedAt := now
  processedAt := none
  version := 0

def isFinal (e : Entry) : Bool := e.status.isFinal

def isCompleted (e : Entry) : Bool := e.status == .completed

/-! ## Changes -/

/-- The description with a note behind it. -/
def withNote (description note : String) : String :=
  if description.isEmpty then note else description ++ " | " ++ note

/-- Nothing, unless the status is final. -/
def checkPending (e : Entry) : Attempt Unit :=
  if e.isFinal then
    .error (.preconditionFailed s!"Transaction {e.id} is already {e.status}")
  else .ok ()

/-- The entry with a final status. -/
def finished (e : Entry) (status : Status) (now : Instant) : Entry :=
  { e with status := status, updatedAt := now, processedAt := some now }

/-- Completes a pending entry and sets its reference. -/
def complete (e : Entry) (reference : String) (now : Instant) : Attempt Entry := do
  e.checkPending
  return { e.finished .completed now with reference := some reference }

/-- Fails a pending entry and notes the reason. -/
def fail (e : Entry) (reason : String) (now : Instant) : Attempt Entry := do
  e.checkPending
  return { e.finished .failed now with
    description := withNote e.description ("Failed: " ++ reason) }

/-- Cancels a pending entry and notes the reason. -/
def cancel (e : Entry) (reason : String) (now : Instant) : Attempt Entry := do
  e.checkPending
  return { e.finished .cancelled now with
    description := withNote e.description ("Cancelled: " ++ reason) }

/-- Adds a note to a pending entry. -/
def note (e : Entry) (text : String) (now : Instant) : Attempt Entry := do
  e.checkPending
  return { e with description := withNote e.description text, updatedAt := now }

end Entry

/-! ## Changes as data -/

/-- A change of an entry. -/
inductive Change where
  | complete (reference : String)
  | fail (reason : String)
  | cancel (reason : String)
  | note (text : String)
deriving DecidableEq, Repr

namespace Change

/-- Makes the change at a time. -/
def apply (c : Change) (e : Entry) (now : Instant) : Attempt Entry :=
  match c with
  | .complete reference => e.complete reference now
  | .fail reason => e.fail reason now
  | .cancel reason => e.cancel reason now
  | .note text => e.note text now

/-- The final status that the change leads to, if it does. -/
def status? : Change → Option Status
  | .complete _ => some .completed
  | .fail _ => some .failed
  | .cancel _ => some .cancelled
  | .note _ => none

/-- Makes changes one after the other. Those that fail are skipped. -/
def applyAll (cs : List (Change × Instant)) (e : Entry) : Entry :=
  cs.foldl (fun e (c, now) => (c.apply e now).toOption.getD e) e

end Change

end Paybook
