import Paybook.Proofs.Entry.WellFormed
import Paybook.Proofs.Store.OrderSafety

/-! # What refunds come to

A completed refund gives a completed payment of the same user and order back in full, and no two of
them are of one order. So they have different payments behind them, and come to no more than the
completed payments: `OrderSafe.refunded_le_spent`. -/

namespace Paybook

/-- The order of an entry and its amount, which a refund has in common with its payment. -/
def Entry.bill (e : Entry) : Option Nat × Amount := (e.order, e.amount)

/-- Entries come to no more than others among which each of them finds its own bill. -/
theorem total_le_of_bills {es es' : List Entry} (hnodup : (es.map Entry.bill).Nodup)
    (hsub : es.map Entry.bill ⊆ es'.map Entry.bill) : total es ≤ total es' := by
  have htotal : ∀ l : List Entry,
      total l = ((l.map Entry.bill).map fun b => b.2.value.toRat).sum := fun l => by
    rw [List.map_map]
    rfl
  obtain ⟨l, hperm, hsublist⟩ := List.subperm_of_subset hnodup hsub
  rw [htotal, htotal, ← (hperm.map _).sum_eq]
  refine (hsublist.map _).sum_le_sum fun x hx => ?_
  obtain ⟨b, -, rfl⟩ := List.mem_map.1 hx
  exact b.2.toRat_pos.le

namespace Store

variable {s : Store} {e e' : Entry} {user : Nat}

/-- An order has no two completed entries of one kind. -/
theorem OrderSafe.eq_of_order (h : s.OrderSafe) (o : Nat) {kind : EntryKind}
    (hkind : kind ∈ EntryKind.ofOrder) (he : e ∈ s.query (Payment.doneFor o kind))
    (he' : e' ∈ s.query (Payment.doneFor o kind)) : e = e' := by
  have honce := h.once o kind hkind
  revert he he' honce
  cases s.query (Payment.doneFor o kind) with
  | nil => exact fun he _ _ => absurd he List.not_mem_nil
  | cons x xs =>
    intro he he' honce
    obtain rfl : xs = [] := by simpa using honce
    exact (List.mem_singleton.1 he).trans (List.mem_singleton.1 he').symm

/-- No two completed refunds of a user have one bill. -/
theorem OrderSafe.nodup_bills (h : s.OrderSafe) (hs : s.WellFormed) :
    ((s.query (Wallet.doneBy user .refund)).map Entry.bill).Nodup := by
  refine List.Nodup.map_on ?_ (s.nodup_entries.filter _)
  intro r hr r' hr' hbill
  obtain ⟨hr, hsel⟩ := mem_query.1 hr
  obtain ⟨hr', hsel'⟩ := mem_query.1 hr'
  obtain ⟨⟨-, hc⟩, hk⟩ := selects_doneBy.1 hsel
  obtain ⟨⟨-, hc'⟩, hk'⟩ := selects_doneBy.1 hsel'
  have hsome : r.order.isSome = true := (hs r hr).ordered.2 (by simp [hk, EntryKind.ofOrder])
  obtain ⟨o, ho⟩ := Option.isSome_iff_exists.1 hsome
  have ho' : r'.order = some o := (congrArg Prod.fst hbill).symm.trans ho
  have hfound : r ∈ s.query (Payment.doneFor o .refund) :=
    mem_query.2 ⟨hr, selects_doneFor.2 ⟨ho, hc, hk⟩⟩
  have hfound' : r' ∈ s.query (Payment.doneFor o .refund) :=
    mem_query.2 ⟨hr', selects_doneFor.2 ⟨ho', hc', hk'⟩⟩
  exact h.eq_of_order o (by simp [EntryKind.ofOrder]) hfound hfound'

/-- Each completed refund of a user has the bill of a completed payment. -/
theorem OrderSafe.bills_subset (h : s.OrderSafe) :
    (s.query (Wallet.doneBy user .refund)).map Entry.bill ⊆
      (s.query (Wallet.doneBy user .payment)).map Entry.bill := by
  intro b hb
  obtain ⟨r, hr, rfl⟩ := List.mem_map.1 hb
  obtain ⟨hr, hsel⟩ := mem_query.1 hr
  obtain ⟨⟨huser, -⟩, hk⟩ := selects_doneBy.1 hsel
  obtain ⟨p, hp, hpk, hpc, horder, hpuser, hamount, -⟩ := h.backed r hr hk
  refine List.mem_map.2 ⟨p, ?_, Prod.ext horder hamount⟩
  exact mem_query.2 ⟨hp, selects_doneBy.2 ⟨⟨hpuser.trans huser, hpc⟩, hpk⟩⟩

/-- The completed refunds of a user come to no more than the completed payments. -/
theorem OrderSafe.refunded_le_spent (h : s.OrderSafe) (hs : s.WellFormed) (user : Nat) :
    total (s.query (Wallet.doneBy user .refund)) ≤ total (s.query (Wallet.doneBy user .payment)) :=
  total_le_of_bills (h.nodup_bills hs) h.bills_subset

end Store

end Paybook
