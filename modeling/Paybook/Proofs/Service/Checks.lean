import Paybook.Proofs.Program.Vets
import Paybook.Service.Payment

/-! # The checks of calls

Whatever stands in front of the writes of a call is a check. -/

namespace Paybook

open Program

theorem Program.vets_requireId (id : Nat) (what : String) : (requireId id what).Vets :=
  vets_require (Failure.isRefusal_invalidArgument _)

theorem Program.vets_ofDecimal (d : Decimal) : (ofAttempt (Amount.ofDecimal d)).Vets := by
  refine vets_ofAttempt fun e he => ?_
  unfold Amount.ofDecimal at he
  cases hd : Amount.ofDecimal? d with
  | some a => rw [hd] at he; cases he
  | none =>
    rw [hd] at he
    cases he
    exact Failure.isRefusal_invalidArgument _

/-! ## Wallets -/

namespace Wallet

theorem vets_requireUser (user : Nat) : (requireUser user).Vets :=
  (vets_request (r := .user user) trivial fun _ => rfl).bind fun _ =>
    vets_require (Failure.isRefusal_notFound _)

theorem vets_holds (user : Nat) : (holds user).Vets :=
  (vets_select _).bind fun _ => vets_inRange _

theorem vets_requireCovered (user : Nat) (amount : Amount) : (requireCovered user amount).Vets :=
  (vets_holds user).bind fun _ => vets_require (Failure.isRefusal_preconditionFailed _)

theorem vets_requireWithinDay (t : Terms) (user : Nat) (kind : EntryKind) (amount : Amount) :
    (requireWithinDay t user kind amount).Vets := by
  unfold requireWithinDay
  cases dailyLimit? t.settings.wallet kind with
  | none => exact vets_pure ()
  | some limit =>
    refine (vets_request (r := .clock) trivial fun _ => rfl).bind ?_
    intro now
    refine (vets_inRange _).bind ?_
    intro today
    refine (vets_select _).bind ?_
    intro entries
    refine (vets_inRange _).bind ?_
    intro used
    exact (vets_inRange _).bind fun _ => vets_require (Failure.isRefusal_preconditionFailed _)

theorem vets_adjustment (user : Nat) (amount : Decimal) (reason : String) (admin : Nat) :
    (adjustment user amount reason admin).Vets := by
  refine (vets_requireId _ _).bind fun _ => ?_
  refine (vets_requireId _ _).bind fun _ => ?_
  refine (vets_require (Failure.isRefusal_invalidArgument _)).bind fun _ => ?_
  exact vets_ofDecimal amount

end Wallet

/-! ## Payments -/

namespace Payment

theorem vets_hasDone (order : Nat) (kind : EntryKind) : (hasDone order kind).Vets :=
  (vets_select _).bind fun _ => vets_pure _

theorem vets_requireUnpaid (order : Nat) : (requireUnpaid order).Vets :=
  (vets_hasDone order .payment).bind fun _ =>
    vets_require (Failure.isRefusal_preconditionFailed _)

theorem vets_requireUnrefunded (order : Nat) : (requireUnrefunded order).Vets :=
  (vets_hasDone order .refund).bind fun _ =>
    vets_require (Failure.isRefusal_preconditionFailed _)

theorem vets_dueAmount (order : Order) : (ofAttempt (dueAmount order)).Vets := by
  refine vets_ofAttempt fun e he => ?_
  unfold dueAmount at he
  cases hd : Amount.ofDecimal? order.total with
  | some a => rw [hd] at he; cases he
  | none =>
    rw [hd] at he
    cases he
    exact Failure.isRefusal_preconditionFailed _

theorem orderOf_eq_ok {payment order : Nat} {e : Entry} :
    orderOf payment e = .ok order ↔ e.kind = .payment ∧ e.order = some order := by
  unfold orderOf
  split
  · next hk => cases e.order <;> simp [hk]
  · next hk => simp [hk]

theorem vets_orderOf (payment : Nat) (e : Entry) : (ofAttempt (orderOf payment e)).Vets := by
  refine vets_ofAttempt fun f hf => ?_
  unfold orderOf at hf
  split at hf
  · split at hf
    · cases hf
    · cases hf
      exact Failure.isRefusal_preconditionFailed _
  · cases hf
    exact Failure.isRefusal_preconditionFailed _

theorem vets_requirePending (e : Entry) : (requirePending e).Vets := by
  refine vets_ofAttempt fun f hf => ?_
  unfold Entry.checkPending at hf
  split at hf
  · cases hf
    exact Failure.isRefusal_preconditionFailed _
  · cases hf

theorem vets_requireCompletable (t : Terms) (e : Entry) : (requireCompletable t e).Vets := by
  unfold requireCompletable
  split
  · exact (Wallet.vets_requireCovered _ _).bind fun _ => Wallet.vets_requireWithinDay t _ _ _
  · exact vets_requireUnpaid _
  · refine (vets_hasDone _ _).bind fun _ => ?_
    refine (vets_require (Failure.isRefusal_preconditionFailed _)).bind fun _ => ?_
    exact vets_requireUnrefunded _
  · rintro _ ⟨⟩
    exact Failure.isRefusal_preconditionFailed _
  · rintro _ ⟨⟩
    exact Failure.isRefusal_preconditionFailed _
  · exact Wallet.vets_requireWithinDay t _ _ _

end Payment

end Paybook
