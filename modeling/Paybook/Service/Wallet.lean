import Paybook.Entry.Summary
import Paybook.Service.Settlement
import Paybook.Settings.Basic
import Paybook.Time.Day

/-! # Wallets

A wallet is the sum of its completed entries. Whatever checks that sum holds the lock of the user
from the check to the entry that relies on it. -/

namespace Paybook

open Time

/-- The terms on which the book is kept: the settings, and the zone of its days. -/
structure Terms where
  settings : Settings := {}
  zone : Zone := .utc

namespace Wallet

open Program

/-- The completed charges and withdrawals of a user. -/
def holdings (user : Nat) : Selection :=
  { user := some user, status := some .completed, kinds := some EntryKind.ofWallet }

/-- The completed entries of a user of a kind that were made in a window of time. -/
def doneWithin (user : Nat) (kind : EntryKind) (window : Window) : Selection :=
  { user := some user, status := some .completed, kinds := some [kind],
    createdFrom := some window.start, createdUntil := some window.stop }

/-- What the wallet holds. -/
def holds (user : Nat) : Program Balance := do
  let entries ← select (holdings user)
  inRange (Balance.ofEntries? entries)

/-- What the wallet holds, for any caller. -/
def balance (user : Nat) : Program Balance := do
  requireId user "User"
  holds user

/-- Whether the wallet holds an amount. -/
def hasBalance (user : Nat) (amount : Decimal) : Program Bool := do
  let amount ← ofAttempt (Amount.ofDecimal amount)
  let balance ← balance user
  return balance.covers amount

/-- Fails unless the wallet holds the amount. -/
def requireCovered (user : Nat) (amount : Amount) : Program Unit := do
  let balance ← holds user
  require (balance.covers amount)
    (.preconditionFailed s!"Insufficient balance: required {amount}, available {balance}")

/-- The daily limit for a kind of entries. Payments and refunds have none. -/
def dailyLimit? (limits : WalletLimits) : EntryKind → Option Decimal
  | .charge => some limits.dailyCharge
  | .withdrawal => some limits.dailyWithdrawal
  | .payment | .refund => none

/-- Fails unless the completed entries of today and the amount stay within the daily limit. -/
def requireWithinDay (t : Terms) (user : Nat) (kind : EntryKind) (amount : Amount) :
    Program Unit := do
  match dailyLimit? t.settings.wallet kind with
  | none => return
  | some limit =>
    let now ← request .clock
    let today ← inRange (t.zone.dayAround? now)
    let entries ← select (doneWithin user kind today)
    let used ← inRange (Decimal.sum? (entries.map fun e => e.amount.value))
    let total ← inRange (used.add? amount.value)
    require (total ≤ limit) (.preconditionFailed
      s!"Daily {kind} limit of {limit} exceeded: {used} already processed today")

/-- Fails unless the user is registered. -/
def requireUser (user : Nat) : Program Unit := do
  let found ← request (.user user)
  require found.isSome (.notFound s!"User {user} not found")

/-- Books an entry of a wallet and completes it at once. -/
def instant (draft : Draft) (word : String) : Program Entry := do
  let entry ← book draft
  orAbandon entry (completeFreshly entry word)

/-! ## Putting money in -/

/-- Whether a wallet can be charged by a method. -/
def canCharge : Method → Bool
  | .card | .bankTransfer | .adminCredit => true
  | .wallet | .cashOnDelivery => false

/-- Moves the money of a new charge: a card gateway decides at once, a bank transfer is awaited,
and an administrator's credit needs nothing. -/
def fund (entry : Entry) (method : Method) : Program Entry :=
  match method with
  | .card => do
    match ← request (.verdict .charges) with
    | .approved => completeFreshly entry "CARD"
    | .declined => fail (.processingFailure "Card charge declined by gateway")
  | .bankTransfer => do update (← change (.note "Awaiting bank transfer verification") entry)
  | .adminCredit => completeFreshly entry "ADMIN"
  | .wallet | .cashOnDelivery => fail (.processingFailure s!"{method} cannot fund a wallet")

/-- Charges a wallet. -/
def charge (t : Terms) (user : Nat) (amount : Decimal) (method : Method) (description : String) :
    Program Entry := do
  requireId user "User"
  let amount ← ofAttempt (Amount.ofDecimal amount)
  require (amount.value ≤ t.settings.wallet.maxCharge) (.invalidArgument
    (s!"Charge amount {amount} exceeds the per-transaction maximum of " ++
      s!"{t.settings.wallet.maxCharge}"))
  require (canCharge method) (.invalidArgument s!"{method} cannot be used to charge a wallet")
  requireUser user
  acquire [.user user]
  requireWithinDay t user .charge amount
  let description := (Text.trimmed? description).getD s!"Wallet charge via {method}"
  let entry ← book ⟨user, none, amount, .charge, method, description⟩
  orAbandon entry (fund entry method)

/-! ## Taking money out -/

/-- The account number with all but its last four characters hidden. -/
def maskAccount (account : String) : String :=
  let cs := Text.trimmed account.toList
  "****" ++ String.ofList (cs.drop (cs.length - 4))

/-- The description of a withdrawal. -/
def withdrawalNote (account reason : String) : String :=
  "Withdrawal to bank account " ++ maskAccount account ++
    match Text.trimmed? reason with
    | some reason => ": " ++ reason
    | none => ""

/-- Asks for a withdrawal to a bank account, which stays pending until the bank confirms it. -/
def withdraw (t : Terms) (user : Nat) (amount : Decimal) (account reason : String) :
    Program Entry := do
  let limits := t.settings.wallet
  requireId user "User"
  let amount ← ofAttempt (Amount.ofDecimal amount)
  require (limits.minWithdrawal ≤ amount.value && amount.value ≤ limits.maxWithdrawal)
    (.invalidArgument (s!"Withdrawal amount must be between {limits.minWithdrawal} and " ++
      s!"{limits.maxWithdrawal}"))
  require (!Text.isAllBlank account) (.invalidArgument "Bank account is required")
  requireUser user
  acquire [.user user]
  requireCovered user amount
  requireWithinDay t user .withdrawal amount
  book ⟨user, none, amount, .withdrawal, .bankTransfer, withdrawalNote account reason⟩

/-- Takes money out for an order, under the lock of the user. -/
def debit (user : Nat) (amount : Amount) (reference : String) : Program Entry := do
  requireCovered user amount
  instant ⟨user, none, amount, .withdrawal, .wallet, "Payment for " ++ reference⟩ "WALLET-DEBIT"

/-- Takes money out for an order. -/
def withdrawForPayment (user : Nat) (amount : Decimal) (reference : String) : Program Entry := do
  requireId user "User"
  let amount ← ofAttempt (Amount.ofDecimal amount)
  acquire [.user user]
  debit user amount reference

/-- Puts the money of a refund back, under the lock of the user. -/
def creditRefund (user : Nat) (amount : Amount) (note : String) : Program Entry :=
  instant ⟨user, none, amount, .charge, .wallet, "REFUND: " ++ note⟩ "REFUND"

/-- The kind of entry that undoes a kind of entry of a wallet. -/
def opposite? : EntryKind → Option EntryKind
  | .charge => some .withdrawal
  | .withdrawal => some .charge
  | .payment | .refund => none

/-- Undoes a completed entry whose order entry could not be completed, and ends with the failure
that prevented it. Neither the balance nor a limit stands in the way. -/
def reverse (entry : Entry) (e : Failure) : Program Entry :=
  match opposite? entry.kind with
  | none => fail e
  | some kind => do
    let undone := instant ⟨entry.user, none, entry.amount, kind, .wallet,
      s!"REVERSAL of #{entry.id}: {e.detail}"⟩ "REVERSAL"
    let _ ← undone.onFailure fun _ => fail e
    fail e

/-! ## Adjustments by an administrator -/

/-- The amount of an adjustment, if everything about it is usable. -/
def adjustment (user : Nat) (amount : Decimal) (reason : String) (admin : Nat) :
    Program Amount := do
  requireId user "User"
  requireId admin "Admin"
  require (!Text.isAllBlank reason)
    (.invalidArgument "A reason is required for admin adjustments")
  ofAttempt (Amount.ofDecimal amount)

/-- Puts money in on the word of an administrator. -/
def adminCredit (user : Nat) (amount : Decimal) (reason : String) (admin : Nat) :
    Program Entry := do
  let amount ← adjustment user amount reason admin
  requireUser user
  acquire [.user user]
  instant ⟨user, none, amount, .charge, .adminCredit,
    s!"Admin credit by admin #{admin}: {Text.trim reason}"⟩ "ADMIN"

/-- Takes money out on the word of an administrator. -/
def adminDebit (user : Nat) (amount : Decimal) (reason : String) (admin : Nat) :
    Program Entry := do
  let amount ← adjustment user amount reason admin
  requireUser user
  acquire [.user user]
  requireCovered user amount
  instant ⟨user, none, amount, .withdrawal, .adminCredit,
    s!"Admin debit by admin #{admin}: {Text.trim reason}"⟩ "ADMIN"

end Wallet

end Paybook
