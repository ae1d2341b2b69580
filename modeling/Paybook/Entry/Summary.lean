import Paybook.Decimal.Arithmetic
import Paybook.Entry.Basic

/-! # Summaries of entries

A summary counts entries by status and adds up the completed ones. It is missing when one of its
sums does not fit a decimal. -/

namespace Paybook

/-- The values of the completed entries of a kind. -/
def completedValues (kind : EntryKind) (es : List Entry) : List Decimal :=
  (es.filter fun e => e.kind == kind && e.isCompleted).map fun e => e.amount.value

/-- The number of entries with a status. -/
def countStatus (status : Status) (es : List Entry) : Nat := es.countP fun e => e.status == status

/-- What a list of entries comes to for orders. -/
structure OrderSummary where
  total : Nat
  completed : Nat
  pending : Nat
  failed : Nat
  cancelled : Nat
  /-- The completed payments. -/
  spent : Decimal
  /-- The completed refunds. -/
  refunded : Decimal
  netSpent : Decimal
  /-- The completed entries in percent of all. -/
  successRate : Decimal
deriving DecidableEq, Repr

/-- Sums up a list of entries for orders. -/
def OrderSummary.of? (es : List Entry) : Option OrderSummary := do
  let spent ← Decimal.sum? (completedValues .payment es)
  let refunded ← Decimal.sum? (completedValues .refund es)
  let netSpent ← spent.sub? refunded
  return {
    total := es.length
    completed := countStatus .completed es
    pending := countStatus .pending es
    failed := countStatus .failed es
    cancelled := countStatus .cancelled es
    spent := spent
    refunded := refunded
    netSpent := netSpent
    successRate := Decimal.percentage (countStatus .completed es) es.length }

/-- What a list of entries comes to for a wallet. -/
structure WalletSummary where
  balance : Balance
  charged : Decimal
  withdrawn : Decimal
  /-- The number of completed charges. -/
  charges : Nat
  /-- The number of completed withdrawals. -/
  withdrawals : Nat
  /-- The number of charges and withdrawals that are pending. -/
  pending : Nat
deriving DecidableEq, Repr

/-- Sums up a list of entries for a wallet. -/
def WalletSummary.of? (es : List Entry) : Option WalletSummary := do
  let charged ← Decimal.sum? (completedValues .charge es)
  let withdrawn ← Decimal.sum? (completedValues .withdrawal es)
  let balance ← charged.sub? withdrawn
  return {
    balance := ⟨balance⟩
    charged := charged
    withdrawn := withdrawn
    charges := (completedValues .charge es).length
    withdrawals := (completedValues .withdrawal es).length
    pending := es.countP fun e => EntryKind.ofWallet.contains e.kind && !e.isFinal }

/-- The balance of a wallet: the completed charges put in and the completed withdrawals taken out,
in the order of the list. -/
def Balance.ofEntries? (es : List Entry) : Option Balance :=
  es.foldlM (fun b e =>
    match e.kind with
    | .charge => b.add? e.amount.value
    | .withdrawal => b.sub? e.amount.value
    | .payment | .refund => some b) Balance.zero

end Paybook
