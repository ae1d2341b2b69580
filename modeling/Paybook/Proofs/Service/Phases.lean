import Paybook.Proofs.Service.Checks

/-! # What the steps of calls ask for

The checks of calls only look, and what they do under their last lock takes no further ones. -/

namespace Paybook

open Program

theorem Program.looks_requireId (id : Nat) (what : String) : (requireId id what).Looks :=
  (vets_requireId id what).looks

/-! ## Wallets -/

namespace Wallet

theorem looks_requireUser (user : Nat) : (requireUser user).Looks := (vets_requireUser user).looks

theorem looks_requireWithinDay (t : Terms) (user : Nat) (kind : EntryKind) (amount : Amount) :
    (requireWithinDay t user kind amount).Looks :=
  (vets_requireWithinDay t user kind amount).looks

theorem looks_adjustment (user : Nat) (amount : Decimal) (reason : String) (admin : Nat) :
    (adjustment user amount reason admin).Looks :=
  (vets_adjustment user amount reason admin).looks

theorem looks_requireCovered (user : Nat) (amount : Amount) :
    (requireCovered user amount).Looks := (vets_requireCovered user amount).looks

theorem lockFree_instant (d : Draft) (word : String) : (instant d word).LockFree :=
  lockFree_book_orAbandon d fun e => lockFree_completeFreshly e word

theorem lockFree_debit (user : Nat) (amount : Amount) (reference : String) :
    (debit user amount reference).LockFree :=
  (looks_requireCovered user amount).lockFree.bind fun _ => lockFree_instant _ _

theorem lockFree_fund (e : Entry) (method : Method) : (fund e method).LockFree := by
  cases method with
  | card =>
    refine (Only.request trivial).bind ?_
    intro verdict
    cases verdict with
    | approved => exact lockFree_completeFreshly e _
    | declined => trivial
  | bankTransfer => exact (lockFree_change _ e).bind lockFree_update
  | adminCredit => exact lockFree_completeFreshly e _
  | wallet | cashOnDelivery => trivial

theorem lockFree_reverse (e : Entry) (f : Failure) : (reverse e f).LockFree := by
  unfold reverse
  split
  · trivial
  · exact ((lockFree_instant _ _).onFailure fun _ => .done _).bind fun _ => .done _

end Wallet

/-! ## Payments -/

namespace Payment

theorem lockFree_completeBy (e leg : Entry) : (completeBy e leg).LockFree :=
  (lockFree_complete e _).onFailure (Wallet.lockFree_reverse leg)

theorem lockFree_collect (e : Entry) (method : Method) : (collect e method).LockFree := by
  cases method with
  | wallet => exact (Wallet.lockFree_debit _ _ _).bind fun leg => lockFree_completeBy e leg
  | card =>
    refine (Only.request trivial).bind ?_
    intro verdict
    cases verdict with
    | approved => exact lockFree_completeFreshly e _
    | declined => trivial
  | cashOnDelivery => exact (lockFree_change _ e).bind lockFree_update
  | bankTransfer | adminCredit => trivial

theorem lockFree_giveBack (e : Entry) (method : Method) : (giveBack e method).LockFree := by
  cases method with
  | wallet => exact (Wallet.lockFree_instant _ _).bind fun leg => lockFree_completeBy e leg
  | card => exact lockFree_completeFreshly e _
  | cashOnDelivery => exact (lockFree_change _ e).bind fun _ => lockFree_completeFreshly _ _
  | bankTransfer | adminCredit => trivial

theorem looks_hasDone (order : Nat) (kind : EntryKind) : (hasDone order kind).Looks :=
  (vets_hasDone order kind).looks

theorem looks_requireUnpaid (order : Nat) : (requireUnpaid order).Looks :=
  (vets_requireUnpaid order).looks

theorem looks_requireUnrefunded (order : Nat) : (requireUnrefunded order).Looks :=
  (vets_requireUnrefunded order).looks

theorem looks_requireCompletable (t : Terms) (e : Entry) : (requireCompletable t e).Looks :=
  (vets_requireCompletable t e).looks

/-- Adds notes to an entry that is not stored yet, if there are any. -/
def annotate (notes : Option String) (e : Entry) : Program Entry :=
  notes.elim (pure e) fun text => change (.note text) e

/-- Completes an entry under a reference, or under one of its own if there is none. -/
def finish (reference : Option String) (e : Entry) : Program Entry :=
  reference.elim (completeFreshly e "MANUAL") (complete e)

/-- An entry is completed in three parts: the check, the notes and the update. -/
theorem settleTo_completed (t : Terms) (e : Entry) (reference notes : Option String) :
    settleTo t e .completed reference notes =
      requireCompletable t e >>= fun _ => annotate notes e >>= finish reference := by
  cases notes <;> cases reference <;> rfl

theorem lockFree_finish (reference : Option String) (e : Entry) :
    (finish reference e).LockFree := by
  cases reference with
  | some reference => exact lockFree_complete e reference
  | none => exact lockFree_completeFreshly e "MANUAL"

theorem lockFree_settleTo (t : Terms) (e : Entry) (status : Status)
    (reference notes : Option String) : (settleTo t e status reference notes).LockFree := by
  cases status with
  | completed =>
    rw [settleTo_completed]
    refine (looks_requireCompletable t e).lockFree.bind fun _ => ?_
    cases notes with
    | some text => exact (lockFree_change _ e).bind (lockFree_finish reference)
    | none => exact lockFree_finish reference e
  | failed | cancelled => exact (lockFree_change _ e).bind lockFree_update
  | pending => trivial

end Payment

end Paybook
