import Mathlib.Data.List.Perm.Subperm
import Paybook.Proofs.Store.Writes

/-! # Orders are paid and refunded once

In a store that is `OrderSafe` no order has two completed payments or two completed refunds, and
every refund, however far it has come, has the completed payment behind it that it gives back.
Writes keep this, and the empty store has it. -/

namespace Paybook.Store

open Payment (doneFor)

variable {s s' : Store} {e old : Entry}

/-- Whether no order is paid or refunded twice, and every refund gives a payment back. -/
structure OrderSafe (s : Store) : Prop where
  once : ∀ o, ∀ kind ∈ EntryKind.ofOrder, (s.query (doneFor o kind)).length ≤ 1
  backed : ∀ r ∈ s.entries, r.kind = .refund → s.Backs r

theorem OrderSafe.empty : OrderSafe .empty where
  once _ _ _ := Nat.zero_le 1
  backed _ hr := absurd hr List.not_mem_nil

theorem selects_doneFor {o : Nat} {kind : EntryKind} :
    (doneFor o kind).selects e = true ↔
      e.order = some o ∧ e.status = .completed ∧ e.kind = kind := by
  simp [Selection.selects_iff, doneFor]

/-- Completing the only entry of a selection leaves the selection with that entry alone. -/
theorem length_query_replace_le_one {sel : Selection} (h : s.query sel = []) :
    ((s.replace e).query sel).length ≤ 1 := by
  have hsub : (s.replace e).query sel ⊆ [e] := by
    intro x hx
    obtain ⟨hx, hsel⟩ := mem_query.1 hx
    rcases mem_replaced hx with ⟨hx, -⟩ | rfl
    · have : x ∈ s.query sel := mem_query.2 ⟨hx, hsel⟩
      rw [h] at this
      exact absurd this List.not_mem_nil
    · exact List.mem_singleton_self x
  exact (List.subperm_of_subset ((s.replace e).nodup_entries.filter _) hsub).length_le

/-- The entry of an amended store is the amended one or an old one. -/
theorem backs_of_mem_replace (h : s.OrderSafe) (stored : s.get? e.id = some old)
    (origin : e.origin = old.origin) {r : Entry} (hr : r ∈ (s.replace e).entries)
    (hk : r.kind = .refund) : s.Backs r := by
  rcases mem_replaced hr with ⟨hr, -⟩ | rfl
  · exact h.backed r hr hk
  · rw [Entry.kind_eq_of_origin origin] at hk
    exact (h.backed old (get?_eq_some.1 stored).1 hk).of_origin origin

/-- Writes keep orders safe. -/
theorem OrderSafe.of_writes (h : s.OrderSafe) (hw : s.Writes s') : s'.OrderSafe := by
  have hg := hw.grows
  cases hw with
  | insert d now backed =>
    refine ⟨fun o kind hk => ?_, fun r hr hk => ?_⟩
    · rw [query_insert_of_completed (doneFor o kind) rfl]
      exact h.once o kind hk
    · rcases List.mem_append.1 hr with hr | hr
      · exact (h.backed r hr hk).mono hg
      · rw [List.mem_singleton.1 hr] at hk ⊢
        exact (backed hk).mono hg
  | amend e old stored pending origin admitted =>
    refine ⟨fun o kind hk => ?_, fun r hr hk => ?_⟩
    · by_cases hsel : (doneFor o kind).selects e = true
      · obtain ⟨ho, hc, rfl⟩ := selects_doneFor.1 hsel
        exact length_query_replace_le_one ((admitted hc).first hk o ho)
      · have hold : (doneFor o kind).selects old = false :=
          Selection.not_selects_of_status rfl (by simp [pending])
        rw [query, filter_replace stored hold (by simpa using hsel)]
        exact h.once o kind hk
    · exact (backs_of_mem_replace h stored origin hr hk).mono hg

end Paybook.Store
