import Paybook.Proofs.Text.Variants
import Paybook.Service.Call
import Paybook.Settings.Json

/-! # Payable statuses

An order's status is trimmed before it is looked for among the listed ones, and these are not. So
the statuses in which an order may be paid are the variants of those listed ones that are trimmed
themselves, in letters of either case and with blank characters around them:
`Payment.pays_in_listed`. A listed status with a blank character at either end makes no order
payable, not even one that is registered with exactly this status: `Payment.refuses_listed`. -/

namespace Paybook

open Program Text

theorem Settings.isPayable_iff {s : Settings} {status : String} : s.isPayable status = true ↔
    ∃ p ∈ s.payableStatuses, trim p = p ∧ Varies status p := by
  rw [isPayable, List.any_eq_true]
  constructor
  · rintro ⟨p, hp, hcase⟩
    have htrim : trim p = p := trim_eq_of_sameCaseless hcase (trim_trim status)
    exact ⟨p, hp, htrim, (varies_iff htrim).2 hcase⟩
  · rintro ⟨p, hp, htrim, hvaries⟩
    exact ⟨p, hp, (varies_iff htrim).1 hvaries⟩

/-- Settings that a text writes are read if nothing is wrong with them. -/
theorem Settings.parse_eq_ok {text : String} {s : Settings}
    (hread : (Json.parse? text).bind ofJson? = some s) (hvalid : s.fault? = none) :
    parse text = .ok s := by
  rw [parse, hread]
  dsimp only
  rw [validated, hvalid]

namespace Payment

variable {t : Terms} {order : Nat} {status : String}

theorem run_requirePayable (h : t.settings.isPayable status = true) (w : World) :
    (requirePayable t order status).run w = (.returned (), w) := by
  rw [requirePayable, require, if_pos h]
  rfl

theorem run_requirePayable_of_not (h : ¬t.settings.isPayable status = true) (w : World) :
    (requirePayable t order status).run w = (.failed (notPayable order status), w) := by
  rw [requirePayable, require, if_neg h]
  rfl

/-- Under all settings, an order passes the check of its status if the status is a variant of a
listed one that is trimmed, and is refused without a trace otherwise. -/
theorem pays_in_listed (t : Terms) (w : World) (order : Nat) (status : String) :
    (∀ p ∈ t.settings.payableStatuses, trim p = p → Varies status p →
      (requirePayable t order status).run w = (.returned (), w)) ∧
    ((∀ p ∈ t.settings.payableStatuses, trim p = p → ¬Varies status p) →
      (requirePayable t order status).run w = (.failed (notPayable order status), w)) := by
  constructor
  · intro p hp htrim hvaries
    exact run_requirePayable (Settings.isPayable_iff.2 ⟨p, hp, htrim, hvaries⟩) w
  · intro hnone
    refine run_requirePayable_of_not (fun hpayable => ?_) w
    obtain ⟨p, hp, htrim, hvaries⟩ := Settings.isPayable_iff.1 hpayable
    exact hnone p hp htrim hvaries

/-- By default a pending order is paid, in small letters and between blank characters too, and a
paid one is not. -/
theorem pays_in_listed_by_default :
    let t : Terms := {}
    let w := World.opening {} 0 ⟨0, 0⟩ fun _ => 0
    "PENDING" ∈ t.settings.payableStatuses ∧ trim "PENDING" = "PENDING" ∧
      Varies "\tpending " "PENDING" ∧
      (requirePayable t 7 "\tpending ").run w = (.returned (), w) ∧
      (requirePayable t 7 "PAID").run w = (.failed (notPayable 7 "PAID"), w) := by
  intro t w
  have hlisted : "PENDING" ∈ t.settings.payableStatuses := by decide
  have htrim : trim "PENDING" = "PENDING" := by decide +kernel
  have hvaries : Varies "\tpending " "PENDING" :=
    ⟨"\t", "pending", " ", by decide +kernel, by decide +kernel, by decide +kernel,
      by decide +kernel⟩
  refine ⟨hlisted, htrim, hvaries, (pays_in_listed t w 7 _).1 _ hlisted htrim hvaries,
    (pays_in_listed t w 7 _).2 fun p hp htrimmed => ?_⟩
  obtain rfl : p = "PENDING" := List.mem_singleton.1 hp
  rw [varies_iff htrimmed]
  decide +kernel

/-- The settings list a status with a blank in front, and an order that is registered with exactly
this status is not paid. -/
theorem refuses_listed :
    let settings : Settings := { payableStatuses := [" PENDING"] }
    let w := (World.opening settings 0 ⟨0, 0⟩ fun _ => 0).registerUser ⟨1, "Ada"⟩
    let o : Order := ⟨7, 1, .ofWord 5, " PENDING"⟩
    Settings.parse "\x7b\"payable_order_statuses\": [\" PENDING\"]\x7d" = .ok settings ∧
      o.status ∈ settings.payableStatuses ∧
      ((Call.pay 1 7 .cashOnDelivery).run { settings := settings } (w.registerOrder o)).1 =
        .failed (notPayable 7 " PENDING") := by
  intro settings w o
  refine ⟨Settings.parse_eq_ok ?_ ?_, ?_, ?_⟩
  · decide +kernel
  · decide +kernel
  · decide
  · decide +kernel

end Payment

end Paybook
