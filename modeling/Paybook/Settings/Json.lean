import Paybook.Json.Number
import Paybook.Json.Parser
import Paybook.Json.Record
import Paybook.Settings.Basic

/-! # Settings in JSON

Every field of the settings may be missing and then has its default. -/

namespace Paybook

/-- The limits that a record writes. -/
def WalletLimits.ofJson? (v : Json) : Option WalletLimits := do
  let fields ← v.fields? ((WalletLimits.named {}).map Prod.fst)
  let limit (name : String) (default : Decimal) : Option Decimal :=
    Json.optional? fields name default Json.toDecimal?
  let defaults : WalletLimits := {}
  return {
    maxCharge := ← limit "max_charge" defaults.maxCharge
    dailyCharge := ← limit "daily_charge_limit" defaults.dailyCharge
    minWithdrawal := ← limit "min_withdrawal" defaults.minWithdrawal
    maxWithdrawal := ← limit "max_withdrawal" defaults.maxWithdrawal
    dailyWithdrawal := ← limit "daily_withdrawal_limit" defaults.dailyWithdrawal }

/-- The gateway settings that a record writes. Only the seed may be `null`. -/
def GatewaySettings.ofJson? (v : Json) : Option GatewaySettings := do
  let fields ← v.fields? ((GatewaySettings.named {}).map Prod.fst ++ ["seed"])
  let defaults : GatewaySettings := {}
  return {
    chargeRate :=
      ← Json.optional? fields "card_charge_success_rate" defaults.chargeRate Json.toDouble?
    paymentRate :=
      ← Json.optional? fields "card_payment_success_rate" defaults.paymentRate Json.toDouble?
    seed := ← Json.optional? fields "seed" defaults.seed (Json.nullable? Json.toWord?) }

namespace Settings

/-- The settings that a record writes. -/
def ofJson? (v : Json) : Option Settings := do
  let fields ← v.fields? ["wallet", "gateway", "payable_order_statuses"]
  let defaults : Settings := {}
  return {
    wallet := ← Json.optional? fields "wallet" defaults.wallet WalletLimits.ofJson?
    gateway := ← Json.optional? fields "gateway" defaults.gateway GatewaySettings.ofJson?
    payableStatuses := ← Json.optional? fields "payable_order_statuses" defaults.payableStatuses
      (Json.list? Json.toText?) }

/-- The settings that a text writes, if they are valid. -/
def parse (s : String) : Attempt Settings :=
  match (Json.parse? s).bind ofJson? with
  | some settings => settings.validated
  | none => .error (.settings "not a JSON record of settings")

end Settings

end Paybook
