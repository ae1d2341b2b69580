import Paybook.Entry.Summary
import Paybook.Service.Settlement
import Paybook.Text.Spelling
import Paybook.Time.Rfc3339

/-! # Histories

Listings of entries come newest first: by their creation and, where that ties, by their
identifiers, both descending. -/

namespace Paybook.History

open Program
open Time (Instant)

/-- Whether an entry comes before another one, or at the same place, in a listing. -/
def newerOrSame (a b : Entry) : Bool :=
  decide (b.createdAt < a.createdAt) || (a.createdAt == b.createdAt && b.id ≤ a.id)

/-- Entries newest first. -/
def newestFirst (es : List Entry) : List Entry := es.mergeSort newerOrSame

theorem newestFirst_perm (es : List Entry) : (newestFirst es).Perm es := List.mergeSort_perm es _

/-- The listing of a selection. -/
def fetch (selection : Selection) : Program (List Entry) := do
  return newestFirst (← select selection)

/-- The entry with an identifier. -/
def entry (id : Nat) : Program Entry := do
  requireId id "Transaction"
  load id

/-- The first entry with a reference. -/
def byReference (reference : String) : Program (Option Entry) := do
  match Text.trimmed? reference with
  | none => fail (.invalidArgument "Reference id is required")
  | some reference => request (.findReference reference)

/-- Whether there is an entry with an identifier. -/
def hasEntry (id : Nat) : Program Bool := request (.contains id)

def ofUser (user : Nat) : Program (List Entry) := do
  requireId user "User"
  fetch { user := some user }

def ofOrder (order : Nat) : Program (List Entry) := do
  requireId order "Order"
  fetch { order := some order }

def withStatus (status : Status) : Program (List Entry) := fetch { status := some status }

def ofKind (kind : EntryKind) : Program (List Entry) := fetch { kinds := some [kind] }

def ofUserWithStatus (user : Nat) (status : Status) : Program (List Entry) := do
  requireId user "User"
  fetch { user := some user, status := some status }

def ofUserOfKind (user : Nat) (kind : EntryKind) : Program (List Entry) := do
  requireId user "User"
  fetch { user := some user, kinds := some [kind] }

/-- Fails if a range of times ends before it starts. -/
def requireRange (start stop : Instant) : Program Unit :=
  require (start ≤ stop)
    (.invalidArgument s!"Date range start {start} is after end {stop}")

/-- The entries made from `start` on and before `stop`. -/
def between (start stop : Instant) : Program (List Entry) := do
  requireRange start stop
  fetch { createdFrom := some start, createdUntil := some stop }

/-- The entries of a user made from `start` on and before `stop`. -/
def ofUserBetween (user : Nat) (start stop : Instant) : Program (List Entry) := do
  requireId user "User"
  requireRange start stop
  fetch { user := some user, createdFrom := some start, createdUntil := some stop }

/-- The charges and withdrawals of a user. -/
def ofWallet (user : Nat) : Program (List Entry) := do
  requireId user "User"
  fetch { user := some user, kinds := some EntryKind.ofWallet }

/-- The payments and refunds of a user. -/
def ofOrders (user : Nat) : Program (List Entry) := do
  requireId user "User"
  fetch { user := some user, kinds := some EntryKind.ofOrder }

/-- What the history of a user comes to for orders. -/
def orderSummary (user : Nat) : Program OrderSummary := do
  let entries ← ofUser user
  inRange (OrderSummary.of? entries)

/-- What the history of a user comes to for the wallet. -/
def walletSummary (user : Nat) : Program WalletSummary := do
  let entries ← ofWallet user
  inRange (WalletSummary.of? entries)

end Paybook.History
