import Paybook.Service.History
import Paybook.Service.Payment
import Paybook.Service.World

/-! # The calls of the book

The calls that write, as data, and what each of them does. -/

namespace Paybook

/-- A call that writes. -/
inductive Call where
  | charge (user : Nat) (amount : Decimal) (method : Method) (description : String)
  | withdraw (user : Nat) (amount : Decimal) (account reason : String)
  | withdrawForPayment (user : Nat) (amount : Decimal) (reference : String)
  | adminCredit (user : Nat) (amount : Decimal) (reason : String) (admin : Nat)
  | adminDebit (user : Nat) (amount : Decimal) (reason : String) (admin : Nat)
  | pay (user order : Nat) (method : Method)
  | refund (payment : Nat) (reason : String)
  | settle (entry : Nat) (status : Status) (reference notes : Option String)
deriving DecidableEq, Repr

/-- The program of a call. -/
def Call.program (t : Terms) : Call → Program Entry
  | charge user amount method description => Wallet.charge t user amount method description
  | withdraw user amount account reason => Wallet.withdraw t user amount account reason
  | withdrawForPayment user amount reference => Wallet.withdrawForPayment user amount reference
  | adminCredit user amount reason admin => Wallet.adminCredit user amount reason admin
  | adminDebit user amount reason admin => Wallet.adminDebit user amount reason admin
  | pay user order method => Payment.pay t user order method
  | refund payment reason => Payment.refund payment reason
  | settle entry status reference notes => Payment.settle t entry status reference notes

/-- Makes a call alone. -/
def Call.run (t : Terms) (c : Call) (w : World) : Outcome Entry × World := (c.program t).run w

/-- The world of a new book: an empty store, nobody registered, and simulated gateways whose draws
come from a seed and from the next one. -/
def World.opening (settings : Settings) (seed : Nat) (now : Time.Instant) (tokens : Nat → Token) :
    World where
  charges := Gateway.simulated settings.gateway.chargeRate seed
  payments := Gateway.simulated settings.gateway.paymentRate ((seed + 1) % Text.wordLimit)
  now := now
  tokens := tokens

end Paybook
