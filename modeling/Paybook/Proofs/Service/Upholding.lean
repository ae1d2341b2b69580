import Paybook.Proofs.Program.Upholds
import Paybook.Proofs.Service.Phases
import Paybook.Service.Call

/-! # Calls write well-formed entries

The users and orders of new entries were checked not to be 0, or come from entries that are well
formed already; references are made of solid words, or trimmed when they come from outside. What a
call is told of at its start may have changed when it has its locks, so every step relies only on
what holds of each well-formed entry. -/

namespace Paybook

open Program
open Text (IsTrimmed IsSolid)

variable {e leg : Entry} {d : Draft}

/-! ## Wallets -/

namespace Wallet

theorem upholds_instant (h : d.WellFormed) {word : String} (hword : IsSolid word) :
    (instant d word).Upholds Entry.WellFormed :=
  upholds_book_orAbandon h fun _ he => upholds_completeFreshly he hword

theorem upholds_debit {user : Nat} (huser : user ≠ 0) (amount : Amount) (reference : String) :
    (debit user amount reference).Upholds Entry.WellFormed := by
  refine (looks_requireCovered user amount).upholds_bind fun _ => ?_
  exact upholds_instant (.of_wallet huser rfl (by simp [EntryKind.ofWallet])) rfl

theorem upholds_creditRefund {user : Nat} (huser : user ≠ 0) (amount : Amount) (note : String) :
    (creditRefund user amount note).Upholds Entry.WellFormed :=
  upholds_instant (.of_wallet huser rfl (by simp [EntryKind.ofWallet])) rfl

theorem upholds_fund (h : e.WellFormed) (method : Method) :
    (fund e method).Upholds Entry.WellFormed := by
  cases method with
  | card =>
    refine (upholds_request (r := .verdict .charges) trivial).bind fun verdict _ => ?_
    cases verdict with
    | approved => exact upholds_completeFreshly h rfl
    | declined => exact upholds_fail _
  | bankTransfer => exact upholds_amend h rfl
  | adminCredit => exact upholds_completeFreshly h rfl
  | wallet | cashOnDelivery => exact upholds_fail _

theorem upholds_reverse (h : leg.WellFormed) (f : Failure) :
    (reverse leg f).Upholds Entry.WellFormed := by
  unfold reverse
  split
  · exact upholds_fail f
  · next kind hkind =>
    have hwallet : kind ∈ EntryKind.ofWallet := by
      cases hk : leg.kind <;> rw [hk] at hkind <;> cases hkind <;> simp [EntryKind.ofWallet]
    refine Upholds.bind (Upholds.onFailure (Q := Entry.WellFormed) ?_ fun _ => upholds_fail f)
      fun _ _ => upholds_fail f
    exact upholds_instant (.of_wallet h.user rfl hwallet) rfl

theorem upholds_charge (t : Terms) (user : Nat) (amount : Decimal) (method : Method)
    (description : String) :
    (charge t user amount method description).Upholds Entry.WellFormed := by
  refine (upholds_requireId user "User").bind fun _ huser => ?_
  refine Looks.upholds_bind (.ofAttempt _) fun a => ?_
  refine Looks.upholds_bind (.require _ _) fun _ => ?_
  refine Looks.upholds_bind (.require _ _) fun _ => ?_
  refine (looks_requireUser user).upholds_bind fun _ => ?_
  refine (upholds_acquire _).bind fun _ _ => ?_
  refine (looks_requireWithinDay t user .charge a).upholds_bind fun _ => ?_
  exact upholds_book_orAbandon (.of_wallet huser rfl (by simp [EntryKind.ofWallet]))
    fun _ he => upholds_fund he method

theorem upholds_withdraw (t : Terms) (user : Nat) (amount : Decimal) (account reason : String) :
    (withdraw t user amount account reason).Upholds Entry.WellFormed := by
  refine (upholds_requireId user "User").bind fun _ huser => ?_
  refine Looks.upholds_bind (.ofAttempt _) fun a => ?_
  refine Looks.upholds_bind (.require _ _) fun _ => ?_
  refine Looks.upholds_bind (.require _ _) fun _ => ?_
  refine (looks_requireUser user).upholds_bind fun _ => ?_
  refine (upholds_acquire _).bind fun _ _ => ?_
  refine (looks_requireCovered user a).upholds_bind fun _ => ?_
  refine (looks_requireWithinDay t user .withdrawal a).upholds_bind fun _ => ?_
  exact upholds_book (.of_wallet huser rfl (by simp [EntryKind.ofWallet]))

theorem upholds_withdrawForPayment (user : Nat) (amount : Decimal) (reference : String) :
    (withdrawForPayment user amount reference).Upholds Entry.WellFormed := by
  refine (upholds_requireId user "User").bind fun _ huser => ?_
  refine Looks.upholds_bind (.ofAttempt _) fun a => ?_
  exact (upholds_acquire _).bind fun _ _ => upholds_debit huser a reference

theorem upholds_adjustment (user : Nat) (amount : Decimal) (reason : String) (admin : Nat) :
    (adjustment user amount reason admin).Upholds fun _ => user ≠ 0 := by
  refine (upholds_requireId user "User").bind fun _ huser => ?_
  refine (looks_requireId admin "Admin").upholds_bind fun _ => ?_
  refine Looks.upholds_bind (.require _ _) fun _ => ?_
  exact (upholds_ofAttempt _).mono fun _ _ => huser

theorem upholds_adminCredit (user : Nat) (amount : Decimal) (reason : String) (admin : Nat) :
    (adminCredit user amount reason admin).Upholds Entry.WellFormed := by
  refine (upholds_adjustment user amount reason admin).bind fun a huser => ?_
  refine (looks_requireUser user).upholds_bind fun _ => ?_
  refine (upholds_acquire _).bind fun _ _ => ?_
  exact upholds_instant (.of_wallet huser rfl (by simp [EntryKind.ofWallet])) rfl

theorem upholds_adminDebit (user : Nat) (amount : Decimal) (reason : String) (admin : Nat) :
    (adminDebit user amount reason admin).Upholds Entry.WellFormed := by
  refine (upholds_adjustment user amount reason admin).bind fun a huser => ?_
  refine (looks_requireUser user).upholds_bind fun _ => ?_
  refine (upholds_acquire _).bind fun _ _ => ?_
  refine (looks_requireCovered user a).upholds_bind fun _ => ?_
  exact upholds_instant (.of_wallet huser rfl (by simp [EntryKind.ofWallet])) rfl

end Wallet

/-! ## Payments -/

namespace Payment

theorem upholds_completeBy (h : e.WellFormed) (hleg : leg.WellFormed) :
    (completeBy e leg).Upholds Entry.WellFormed := by
  have hword : IsSolid "WALLET-" := rfl
  have hreference : IsTrimmed s!"WALLET-{leg.id}" := by
    refine (hword.append (Text.isSolid_toString leg.id)).isTrimmed ?_
    simp
  exact (upholds_complete h hreference).onFailure (Wallet.upholds_reverse hleg)

theorem upholds_collect (h : e.WellFormed) (method : Method) :
    (collect e method).Upholds Entry.WellFormed := by
  cases method with
  | wallet =>
    exact (Wallet.upholds_debit h.user e.amount _).bind fun _ hleg => upholds_completeBy h hleg
  | card =>
    refine (upholds_request (r := .verdict .payments) trivial).bind fun verdict _ => ?_
    cases verdict with
    | approved => exact upholds_completeFreshly h rfl
    | declined => exact upholds_fail _
  | cashOnDelivery => exact upholds_amend h rfl
  | bankTransfer | adminCredit => exact upholds_fail _

theorem upholds_giveBack (h : e.WellFormed) (method : Method) :
    (giveBack e method).Upholds Entry.WellFormed := by
  cases method with
  | wallet =>
    exact (Wallet.upholds_creditRefund h.user e.amount _).bind fun _ hleg =>
      upholds_completeBy h hleg
  | card => exact upholds_completeFreshly h rfl
  | cashOnDelivery =>
    exact (upholds_change (c := .note _) h nofun).bind fun _ he => upholds_completeFreshly he rfl
  | bankTransfer | adminCredit => exact upholds_fail _

theorem upholds_pay (t : Terms) (user order : Nat) (method : Method) :
    (pay t user order method).Upholds Entry.WellFormed := by
  refine (upholds_requireId user "User").bind fun _ huser => ?_
  refine (upholds_requireId order "Order").bind fun _ horder => ?_
  refine Looks.upholds_bind (.require _ _) fun _ => ?_
  refine (Wallet.looks_requireUser user).upholds_bind fun _ => ?_
  refine Looks.upholds_bind (.request trivial) fun found => ?_
  refine Looks.upholds_bind (.ofAttempt _) fun o => ?_
  refine Looks.upholds_bind (.require _ _) fun _ => ?_
  refine Looks.upholds_bind (.require _ _) fun _ => ?_
  refine Looks.upholds_bind (.ofAttempt _) fun a => ?_
  refine (upholds_acquire _).bind fun _ _ => ?_
  refine (looks_requireUnpaid order).upholds_bind fun _ => ?_
  have hbook : ∀ text, (book ⟨user, some order, a, .payment, method, text⟩ >>= fun payment =>
      orAbandon payment (collect payment method)).Upholds Entry.WellFormed := fun _ =>
    upholds_book_orAbandon (.of_order huser rfl horder (by simp [EntryKind.ofOrder]))
      fun _ he => upholds_collect he method
  split
  · exact (Wallet.looks_requireCovered user a).upholds_bind fun _ => hbook _
  · exact hbook _

theorem upholds_refund (payment : Nat) (reason : String) :
    (refund payment reason).Upholds Entry.WellFormed := by
  refine (looks_requireId payment "Payment").upholds_bind fun _ => ?_
  refine (upholds_load payment).bind fun seen hseen => ?_
  have horderOf : (ofAttempt (orderOf payment seen)).Upholds fun order => order ≠ 0 :=
    (upholds_ofAttempt _).mono fun order ho => hseen.order order (orderOf_eq_ok.1 ho).2
  refine horderOf.bind fun order horder => ?_
  refine (upholds_acquire _).bind fun _ _ => ?_
  refine (upholds_load payment).bind fun paid hpaid => ?_
  refine Looks.upholds_bind (.require _ _) fun _ => ?_
  refine (looks_requireUnrefunded order).upholds_bind fun _ => ?_
  exact upholds_book_orAbandon (.of_order hpaid.user rfl horder (by simp [EntryKind.ofOrder]))
    fun _ he => upholds_giveBack he paid.method

theorem upholds_finish (h : e.WellFormed) {reference : Option String}
    (hr : ∀ r, reference = some r → IsTrimmed r) :
    (finish reference e).Upholds Entry.WellFormed := by
  cases reference with
  | some r => exact upholds_complete h (hr r rfl)
  | none => exact upholds_completeFreshly h rfl

theorem upholds_settleTo (t : Terms) (h : e.WellFormed) (status : Status)
    {reference : Option String} (hr : ∀ r, reference = some r → IsTrimmed r)
    (notes : Option String) : (settleTo t e status reference notes).Upholds Entry.WellFormed := by
  cases status with
  | completed =>
    rw [settleTo_completed]
    refine (looks_requireCompletable t e).upholds_bind fun _ => ?_
    have hannotate : (annotate notes e).Upholds Entry.WellFormed := by
      cases notes with
      | some text => exact upholds_change h nofun
      | none => exact upholds_pure h
    exact hannotate.bind fun _ he => upholds_finish he hr
  | failed | cancelled => exact upholds_amend h rfl
  | pending => exact upholds_fail _

theorem upholds_settle (t : Terms) (entry : Nat) (status : Status)
    (reference notes : Option String) :
    (settle t entry status reference notes).Upholds Entry.WellFormed := by
  refine (looks_requireId entry "Transaction").upholds_bind fun _ => ?_
  refine Looks.upholds_bind (.require _ _) fun _ => ?_
  refine (upholds_load entry).bind fun seen _ => ?_
  refine (upholds_acquire _).bind fun _ _ => ?_
  refine (upholds_load entry).bind fun e he => ?_
  refine Looks.upholds_bind (.ofAttempt _) fun _ => ?_
  refine upholds_settleTo t he status (fun r hr => ?_) _
  obtain ⟨text, -, htext⟩ := Option.bind_eq_some_iff.1 hr
  exact Text.isTrimmed_of_trimmed? htext

end Payment

/-- Every call writes only well-formed entries as long as it is told of no others. -/
theorem Call.upholds (t : Terms) (c : Call) : (c.program t).Upholds Entry.WellFormed := by
  cases c with
  | charge => exact Wallet.upholds_charge t _ _ _ _
  | withdraw => exact Wallet.upholds_withdraw t _ _ _ _
  | withdrawForPayment => exact Wallet.upholds_withdrawForPayment _ _ _
  | adminCredit => exact Wallet.upholds_adminCredit _ _ _ _
  | adminDebit => exact Wallet.upholds_adminDebit _ _ _ _
  | pay => exact Payment.upholds_pay t _ _ _
  | refund => exact Payment.upholds_refund _ _
  | settle => exact Payment.upholds_settle t _ _ _ _

end Paybook
