import Paybook.Proofs.Entry.Summary
import Paybook.Proofs.Service.Crowd
import Paybook.Proofs.Service.Range
import Paybook.Proofs.Service.WellKept
import Paybook.Proofs.Store.Refunds

/-! # Refunds within payments

However calls on a ledger interleave, its entries stay well formed and its orders safe. So what a
user has been refunded stays within what the user has spent, and while the ledger is exact the
summary of the user's history says so: `Crowd.refunds_within_payments`. -/

namespace Paybook

open Program

/-! ## Crowds -/

namespace Crowd

variable {ι : Type} [DecidableEq ι] {k k' : Crowd ι} {i : ι}

/-- Whether a calm crowd has well-formed entries only, and writes no others. -/
structure WellFormed (k : Crowd ι) : Prop where
  calm : k.world.Calm
  store : k.world.store.WellFormed
  upholds : ∀ i, (k.callers i).rest.Upholds fun _ => True

theorem WellFormed.move (h : k.WellFormed) {w : World} {c : Caller} (calm : w.Calm)
    (store : w.store.WellFormed) (hc : c.rest.Upholds fun _ => True) :
    (k.move i w c).WellFormed where
  calm := calm
  store := store
  upholds := forall_callers_move (P := fun c => c.rest.Upholds fun _ => True) hc fun j _ =>
    h.upholds j

/-- Every step keeps the entries well formed. -/
theorem WellFormed.step (h : k.WellFormed) (hs : k.Step k') : k'.WellFormed := by
  cases hs with
  | lock i key next rest =>
    have hi := h.upholds i
    rw [rest] at hi
    exact h.move h.calm h.store (hi.2 () trivial)
  | request i r next rest =>
    have hi := h.upholds i
    rw [rest] at hi
    obtain ⟨htells, hcalm, hstore⟩ := hi.1.answer h.calm h.store
    exact h.move hcalm hstore (hi.2 _ htells)
  | leave i o => exact h.move h.calm h.store fun _ _ => trivial
  | user | order | time => exact ⟨h.calm, h.store, h.upholds⟩

theorem WellFormed.reaches (h : k.WellFormed) (hr : Relation.ReflTransGen Step k k') :
    k'.WellFormed := by
  induction hr with
  | refl => exact h
  | tail _ hs ih => exact ih.step hs

omit [DecidableEq ι] in
theorem wellFormed_start {t : Terms} {w : World} (hw : w.Calm) (hs : w.store.WellFormed)
    (calls : ι → Call) : (start t w calls).WellFormed where
  calm := hw
  store := hs
  upholds i := ((calls i).upholds t).mono fun _ _ => trivial

end Crowd

/-! ## Summaries -/

/-- The completed entries of a kind in the history of a user. -/
theorem Store.completedOf_query (s : Store) (user : Nat) (kind : EntryKind) :
    completedOf kind (s.query { user := some user }) = s.query (Wallet.doneBy user kind) := by
  rw [completedOf, query, query, List.filter_filter]
  refine List.filter_congr fun e _ => ?_
  rw [Bool.eq_iff_iff, Bool.and_eq_true, Bool.and_eq_true, selects_user, selects_doneBy, beq_iff_eq,
    Entry.isCompleted, beq_iff_eq]
  constructor
  · rintro ⟨⟨hk, hc⟩, hu⟩
    exact ⟨⟨hu, hc⟩, hk⟩
  · rintro ⟨⟨hu, hc⟩, hk⟩
    exact ⟨⟨hk, hc⟩, hu⟩

/-- The summary of an exact history exists, and is exact. -/
theorem History.run_orderSummary {w : World} {user : Nat} (hw : w.Calm) (huser : user ≠ 0)
    (hx : Exact w.store.entries) :
    ∃ sum, ((orderSummary user).run w).1 = .returned sum ∧
      sum.spent.toRat = total (w.store.query (Wallet.doneBy user .payment)) ∧
      sum.refunded.toRat = total (w.store.query (Wallet.doneBy user .refund)) ∧
      sum.netSpent.toRat = sum.spent.toRat - sum.refunded.toRat := by
  have hhistory : Exact (newestFirst (w.store.query { user := some user })) :=
    (hx.sublist List.filter_sublist).newestFirst
  obtain ⟨sum, hsum, hspent, hrefunded, hnet⟩ := hhistory.orderSummary
  rw [total_completedOf_newestFirst, Store.completedOf_query] at hspent hrefunded
  refine ⟨sum, ?_, hspent, hrefunded, hnet⟩
  rw [orderSummary, run_bind_of_run (run_ofUser hw huser), hsum]
  rfl

namespace Crowd

variable {ι : Type} [DecidableEq ι]

/-- However calls on a ledger interleave: while the ledger is exact, the summary of the history of a
user exists, what was spent and refunded are the exact sums of the completed payments and refunds,
no more was refunded than spent, and the net amount is the exact difference and not negative. -/
theorem refunds_within_payments (t : Terms) (w : World) (es : List Event) (calls : ι → Call)
    {k : Crowd ι}
    (hk : Relation.ReflTransGen Step (start t ((w.withStore .empty).after t es) calls) k)
    (hx : Exact k.world.store.entries) {user : Nat} (huser : user ≠ 0) :
    ∃ sum, ((History.orderSummary user).run k.world).1 = .returned sum ∧
      sum.spent.toRat = total (k.world.store.query (Wallet.doneBy user .payment)) ∧
      sum.refunded.toRat = total (k.world.store.query (Wallet.doneBy user .refund)) ∧
      .zero ≤ sum.refunded ∧ sum.refunded ≤ sum.spent ∧
      sum.netSpent.toRat = sum.spent.toRat - sum.refunded.toRat ∧ .zero ≤ sum.netSpent := by
  have hstart := w.calm_withStore .empty
  obtain ⟨hcalm, hwritten⟩ := World.written_after (t := t) hstart es
  have hsound := (sound_start hcalm (hwritten.orderSafe .empty) calls).reaches hk
  have hwell := (wellFormed_start hcalm (World.wellFormed_after hstart .empty) calls).reaches hk
  have hle := hsound.orderSafe.refunded_le_spent hwell.store user
  obtain ⟨sum, hsum, hspent, hrefunded, hnet⟩ := History.run_orderSummary hsound.calm huser hx
  refine ⟨sum, hsum, hspent, hrefunded, ?_, ?_, hnet, ?_⟩
  · rw [Decimal.le_iff_toRat, Decimal.toRat_zero, hrefunded]
    exact total_nonneg _
  · rw [Decimal.le_iff_toRat, hspent, hrefunded]
    exact hle
  · rw [Decimal.le_iff_toRat, Decimal.toRat_zero, hnet, hspent, hrefunded]
    exact sub_nonneg.2 hle

/-- Of two orders paid for seven, the one for four is refunded, and about to be once more. -/
theorem refunds_within_payments_after_refund :
    let v := ((World.opening {} 0 ⟨0, 0⟩ fun _ => 0).withStore .empty).after {}
      [.user ⟨1, "Ada"⟩, .order ⟨7, 1, .ofWord 4, "PENDING"⟩, .order ⟨8, 1, .ofWord 3, "PENDING"⟩,
        .call (.charge 1 (.ofWord 10) .adminCredit ""), .call (.pay 1 7 .wallet),
        .call (.pay 1 8 .wallet), .call (.refund 2 "")]
    Exact v.store.entries ∧ ∃ sum, ((History.orderSummary 1).run v).1 = .returned sum ∧
      sum.spent.toRat = 7 ∧ sum.refunded.toRat = 4 ∧ .zero ≤ sum.refunded ∧
      sum.refunded ≤ sum.spent ∧ sum.netSpent.toRat = 3 ∧ .zero ≤ sum.netSpent := by
  intro v
  have hx : Exact v.store.entries :=
    .of_words (l := [10, 4, 4, 3, 3, 4, 4]) (by decide +kernel) (by decide)
  have hspent : total (v.store.query (Wallet.doneBy 1 .payment)) = 7 :=
    total_of_words (l := [4, 3]) (by decide +kernel)
  have hrefunded : total (v.store.query (Wallet.doneBy 1 .refund)) = 4 :=
    total_of_words (l := [4]) (by decide +kernel)
  have huser : (1 : Nat) ≠ 0 := by decide
  obtain ⟨sum, hsum, hs, hr, hnonneg, hle, hnet, hnet'⟩ := refunds_within_payments {} _ _
    (fun _ : Unit => .refund 2 "") (.refl : Relation.ReflTransGen Step _ (start {} v _)) hx huser
  have hs := hs.trans hspent
  have hr := hr.trans hrefunded
  refine ⟨hx, sum, hsum, hs, hr, hnonneg, hle, ?_, hnet'⟩
  rw [hnet, hs, hr]
  norm_num

end Crowd

end Paybook
