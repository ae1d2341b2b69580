import Paybook.Service.Wallet

/-! # Payments, refunds and settlements

An order is paid by an entry of its own, and by a second one of the wallet when the wallet pays.
Every call holds the locks of the order and of its user from the checks to the last update, and an
entry that cannot be brought to its end is failed. -/

namespace Paybook.Payment

open Program

/-- The completed entries of an order of a kind. -/
def doneFor (order : Nat) (kind : EntryKind) : Selection :=
  { order := some order, status := some .completed, kinds := some [kind] }

/-- Whether an order has a completed entry of a kind. -/
def hasDone (order : Nat) (kind : EntryKind) : Program Bool := do
  let entries ← select (doneFor order kind)
  return !entries.isEmpty

/-- Fails if the order has been paid. -/
def requireUnpaid (order : Nat) : Program Unit := do
  let paid ← hasDone order .payment
  require (!paid) (.preconditionFailed s!"Order {order} has already been paid")

/-- Fails if the payment of the order has been refunded. -/
def requireUnrefunded (order : Nat) : Program Unit := do
  let refunded ← hasDone order .refund
  require (!refunded) (.preconditionFailed s!"Order {order} has already been refunded")

/-! ## Paying -/

/-- Whether an order can be paid by a method. -/
def canPay : Method → Bool
  | .wallet | .card | .cashOnDelivery => true
  | .bankTransfer | .adminCredit => false

/-- Completes an order entry under the entry of the wallet that moved its money, and undoes the
latter when that fails. -/
def completeBy (entry leg : Entry) : Program Entry :=
  (complete entry s!"WALLET-{leg.id}").onFailure (Wallet.reverse leg)

/-- Moves the money of a new payment. -/
def collect (payment : Entry) (method : Method) : Program Entry :=
  match method with
  | .wallet => do
    let leg ← Wallet.debit payment.user payment.amount s!"order #{payment.order.getD 0}"
    completeBy payment leg
  | .card => do
    match ← request (.verdict .payments) with
    | .approved => completeFreshly payment "CARD"
    | .declined => fail (.processingFailure "Card payment declined by gateway")
  | .cashOnDelivery => do
    update (← change (.note "Cash on delivery: payment pending until delivery") payment)
  | .bankTransfer | .adminCredit =>
    fail (.processingFailure s!"Unsupported payment method {method}")

/-- The amount that an order asks for. -/
def dueAmount (order : Order) : Attempt Amount :=
  match Amount.ofDecimal? order.total with
  | some amount => .ok amount
  | none => .error (.preconditionFailed
      s!"Order {order.id} has a non-positive total of {order.total}")

/-- The failure of paying an order in a status in which it may not be paid. -/
def notPayable (order : Nat) (status : String) : Failure :=
  .preconditionFailed s!"Order {order} is not payable in status {status}"

/-- Fails unless an order may be paid in the status that it is registered with. -/
def requirePayable (t : Terms) (order : Nat) (status : String) : Program Unit :=
  require (t.settings.isPayable status) (notPayable order status)

/-- Pays an order. -/
def pay (t : Terms) (user order : Nat) (method : Method) : Program Entry := do
  requireId user "User"
  requireId order "Order"
  require (canPay method) (.invalidArgument s!"{method} is not accepted for order payments")
  Wallet.requireUser user
  let found ← request (.order order)
  let found ← ofAttempt (match found with
    | some o => .ok o
    | none => .error (.notFound s!"Order {order} not found"))
  require (found.user = user)
    (.preconditionFailed s!"Order {order} does not belong to user {user}")
  requirePayable t order found.status
  let amount ← ofAttempt (dueAmount found)
  acquire [.order order, .user user]
  requireUnpaid order
  if method = .wallet then Wallet.requireCovered user amount
  let payment ← book
    ⟨user, some order, amount, .payment, method, s!"Payment for order #{order}"⟩
  orAbandon payment (collect payment method)

/-! ## Refunding -/

/-- Moves the money of a new refund back the way the payment came. -/
def giveBack (entry : Entry) (method : Method) : Program Entry :=
  match method with
  | .wallet => do
    let leg ← Wallet.creditRefund entry.user entry.amount
      s!"order #{entry.order.getD 0} (refund #{entry.id})"
    completeBy entry leg
  | .card => completeFreshly entry "CARD-REFUND"
  | .cashOnDelivery => do
    completeFreshly (← change (.note "Manual cash refund required") entry) "COD-REFUND"
  | .bankTransfer | .adminCredit =>
    fail (.processingFailure s!"Cannot refund a payment made with {method}")

/-- The order of an entry that must be a payment. -/
def orderOf (payment : Nat) (e : Entry) : Attempt Nat :=
  if e.kind = .payment then
    match e.order with
    | some order => .ok order
    | none => .error (.preconditionFailed s!"Payment {payment} has no order")
  else
    .error (.preconditionFailed s!"Transaction {payment} is a {e.kind}, not a payment")

/-- Refunds a completed payment in full, back through the method it was paid with. -/
def refund (payment : Nat) (reason : String) : Program Entry := do
  requireId payment "Payment"
  let seen ← load payment
  let order ← ofAttempt (orderOf payment seen)
  acquire [.order order, .user seen.user]
  let paid ← load payment
  require (paid.status = .completed) (.preconditionFailed
    s!"Only completed payments can be refunded; payment {payment} is {paid.status}")
  requireUnrefunded order
  let reason := (Text.trimmed? reason).getD "no reason given"
  let entry ← book ⟨paid.user, some order, paid.amount, .refund, paid.method,
    s!"Refund for payment #{payment}: {reason}"⟩
  orAbandon entry (giveBack entry paid.method)

/-! ## Settling -/

/-- Fails unless a pending entry may be completed now: what its completion would change is checked
again. -/
def requireCompletable (t : Terms) (e : Entry) : Program Unit :=
  match e.kind, e.order with
  | .withdrawal, _ => do
    Wallet.requireCovered e.user e.amount
    Wallet.requireWithinDay t e.user e.kind e.amount
  | .payment, some order => requireUnpaid order
  | .refund, some order => do
    let paid ← hasDone order .payment
    require paid (.preconditionFailed s!"Order {order} has no completed payment to refund")
    requireUnrefunded order
  | .payment, none | .refund, none =>
    fail (.preconditionFailed s!"Transaction {e.id} has no order")
  | .charge, _ => Wallet.requireWithinDay t e.user e.kind e.amount

/-- The failure of asking for a status that nothing is moved to. -/
def pendingTarget : Failure := .invalidArgument "A transaction cannot be moved back to PENDING"

/-- Fails unless the entry is pending. -/
def requirePending (e : Entry) : Program Unit := ofAttempt e.checkPending

/-- Moves a pending entry to a final status under the locks it needs. -/
def settleTo (t : Terms) (e : Entry) (status : Status) (reference notes : Option String) :
    Program Entry :=
  match status with
  | .completed => do
    requireCompletable t e
    let e ← match notes with
      | some text => change (.note text) e
      | none => pure e
    match reference with
    | some reference => complete e reference
    | none => completeFreshly e "MANUAL"
  | .failed => do
    update (← change (.fail (notes.getD "Reported failed by settlement callback")) e)
  | .cancelled => do
    update (← change (.cancel (notes.getD "Cancelled by settlement callback")) e)
  | .pending => fail pendingTarget

/-- The keys that a settlement of an entry takes. -/
def settlementKeys (e : Entry) : List LockKey := .user e.user :: e.order.toList.map .order

/-- Brings a pending entry to a final status, as somebody outside reports it. -/
def settle (t : Terms) (entry : Nat) (status : Status) (reference notes : Option String) :
    Program Entry := do
  requireId entry "Transaction"
  require (status ≠ .pending) pendingTarget
  let seen ← load entry
  acquire (settlementKeys seen)
  let e ← load entry
  requirePending e
  settleTo t e status (reference.bind Text.trimmed?) (notes.bind Text.trimmed?)

end Paybook.Payment
