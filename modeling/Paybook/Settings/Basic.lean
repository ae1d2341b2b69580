import Paybook.Binary64.Basic
import Paybook.Decimal.Printer
import Paybook.Failure
import Paybook.Text.Spelling

/-! # Settings

The settings bound what a wallet may move, say how often the simulated card gateways approve, and
list the statuses in which an order may be paid. -/

namespace Paybook

/-- Bounds on what a wallet moves. The daily ones hold for the local calendar day. -/
structure WalletLimits where
  maxCharge : Decimal := .ofWord 10000
  dailyCharge : Decimal := .ofWord 50000
  minWithdrawal : Decimal := .ofWord 10
  maxWithdrawal : Decimal := .ofWord 5000
  dailyWithdrawal : Decimal := .ofWord 20000
deriving DecidableEq, Repr

/-- How often the card gateways approve, and the seed of their draws. -/
structure GatewaySettings where
  chargeRate : Binary64 := .ofScientific false 95 (-2)
  paymentRate : Binary64 := .ofScientific false 90 (-2)
  seed : Option Nat := none
deriving DecidableEq, Repr

structure Settings where
  wallet : WalletLimits := {}
  gateway : GatewaySettings := {}
  payableStatuses : List String := ["PENDING"]
deriving DecidableEq, Repr

namespace WalletLimits

/-- The limits with their names, in the order in which they are checked. -/
def named (l : WalletLimits) : List (String × Decimal) :=
  [("max_charge", l.maxCharge), ("daily_charge_limit", l.dailyCharge),
   ("min_withdrawal", l.minWithdrawal), ("max_withdrawal", l.maxWithdrawal),
   ("daily_withdrawal_limit", l.dailyWithdrawal)]

end WalletLimits

namespace GatewaySettings

/-- The rates with their names, in the order in which they are checked. -/
def named (g : GatewaySettings) : List (String × Binary64) :=
  [("card_charge_success_rate", g.chargeRate), ("card_payment_success_rate", g.paymentRate)]

end GatewaySettings

namespace Settings

/-- What is wrong with settings, if anything is: limits must be positive and in order, rates must
be shares, and some status must be payable. -/
def fault? (s : Settings) : Option Failure :=
  match s.wallet.named.find? fun (_, d) => !decide d.IsPositive with
  | some (name, _) => some (.invalidArgument s!"wallet.{name} must be positive")
  | none =>
    if s.wallet.maxWithdrawal < s.wallet.minWithdrawal then
      some (.invalidArgument "wallet.min_withdrawal exceeds wallet.max_withdrawal")
    else
      match s.gateway.named.find? fun (_, r) => !r.isShare with
      | some (name, _) => some (.invalidArgument s!"gateway.{name} must be within [0, 1]")
      | none =>
        if s.payableStatuses.isEmpty then
          some (.invalidArgument "payable_order_statuses must not be empty")
        else none

/-- The settings, if nothing is wrong with them. -/
def validated (s : Settings) : Attempt Settings :=
  match s.fault? with
  | some f => .error f
  | none => .ok s

/-- Whether an order in this status may be paid. Blanks around the status and the case of its
letters do not matter. -/
def isPayable (s : Settings) (status : String) : Bool :=
  s.payableStatuses.any fun p => Text.sameCaseless p (Text.trim status)

end Settings

end Paybook
