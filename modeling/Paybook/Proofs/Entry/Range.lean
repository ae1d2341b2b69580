import Paybook.Proofs.Decimal.Range
import Paybook.Proofs.Entry.Exact

/-! # Entries whose sums are in range

Entries whose amounts, each rounded up to whole units, together do not exceed the magnitude of a
decimal can be added up in any order and for any purpose: their balance and their summaries
exist. -/

namespace Paybook

open Decimal

/-- The whole units that it takes to hold the amount of an entry. -/
def Entry.extent (e : Entry) : Nat := e.amount.value.extent

/-- The whole units that it takes to hold the amounts of some entries. -/
def extents (es : List Entry) : Nat := (es.map Entry.extent).sum

@[simp] theorem extents_nil : extents [] = 0 := rfl

@[simp] theorem extents_cons (e : Entry) (es : List Entry) :
    extents (e :: es) = e.extent + extents es := List.sum_cons

theorem extents_le_of_sublist {es es' : List Entry} (h : es.Sublist es') :
    extents es ≤ extents es' := by
  induction h with
  | slnil => exact le_refl _
  | cons e _ ih => exact ih.trans (Nat.le_add_left _ _)
  | cons_cons e _ ih => exact Nat.add_le_add_left ih _

theorem extents_perm {es es' : List Entry} (h : es.Perm es') : extents es = extents es' :=
  (h.map Entry.extent).sum_eq

theorem extent_le_of_mem {e : Entry} {es : List Entry} (h : e ∈ es) : e.extent ≤ extents es :=
  List.le_sum_of_mem (List.mem_map_of_mem h)

/-- Entries of two sorts that exclude each other take no more than all entries. -/
theorem extents_filter_add_le {p q : Entry → Bool} (hpq : ∀ e, p e = true → q e = false)
    (es : List Entry) : extents (es.filter p) + extents (es.filter q) ≤ extents es := by
  induction es with
  | nil => exact le_refl _
  | cons e es ih =>
    cases hp : p e with
    | true =>
      rw [List.filter_cons_of_pos hp, List.filter_cons_of_neg (by simp [hpq e hp]), extents_cons,
        extents_cons]
      omega
    | false =>
      have hq : ((e :: es).filter q).Sublist (e :: es.filter q) := by
        rw [List.filter_cons]
        split
        · exact .refl _
        · exact .cons _ (.refl _)
      have hle := extents_le_of_sublist hq
      rw [extents_cons] at hle
      rw [List.filter_cons_of_neg (by simp [hp]), extents_cons]
      omega

/-- Entries of a sort and one that is not of it take no more than all entries. -/
theorem extents_filter_add_extent_le {p : Entry → Bool} {e : Entry} {es : List Entry} (he : e ∈ es)
    (hp : p e = false) : extents (es.filter p) + e.extent ≤ extents es := by
  have hrest : e.extent ≤ extents (es.filter fun x => !p x) :=
    extent_le_of_mem (List.mem_filter.2 ⟨he, by simp [hp]⟩)
  exact (Nat.add_le_add_left hrest _).trans (extents_filter_add_le (by simp) es)

/-! ## Balances and summaries -/

/-- The amounts of entries in range have a sum. -/
theorem sum?_of_extents {es : List Entry} (h : extents es ≤ maxMagnitude) :
    ∃ d, Decimal.sum? (es.map fun e => e.amount.value) = some d ∧ d.extent ≤ extents es := by
  have hvalues : ((es.map fun e => e.amount.value).map extent).sum = extents es := by
    rw [List.map_map, extents]
    rfl
  rw [← hvalues] at h ⊢
  exact sum?_of_extent h

theorem Balance.after?_of_extent (b : Balance) (e : Entry)
    (h : b.value.extent + e.extent ≤ maxMagnitude) :
    ∃ b', b.after? e = some b' ∧ b'.value.extent ≤ b.value.extent + e.extent := by
  unfold after?
  cases e.kind with
  | charge =>
    obtain ⟨d, hd, hle⟩ := add?_of_extent h
    exact ⟨⟨d⟩, by rw [add?, hd]; rfl, hle⟩
  | withdrawal =>
    obtain ⟨d, hd, hle⟩ := sub?_of_extent h
    exact ⟨⟨d⟩, by rw [sub?, hd]; rfl, hle⟩
  | payment | refund => exact ⟨b, rfl, Nat.le_add_right _ _⟩

theorem Balance.ofEntries?_of_extents {es : List Entry} (h : extents es ≤ maxMagnitude) :
    ∃ b, ofEntries? es = some b := by
  have hzero : zero.value.extent + (es.map Entry.extent).sum ≤ maxMagnitude := by
    change 0 + extents es ≤ _
    omega
  obtain ⟨b, hb, -⟩ := exists_foldlM after?_of_extent hzero
  exact ⟨b, hb⟩

/-- The completed values of two kinds have sums and a difference. -/
theorem completedValues_of_extents (kind kind' : EntryKind) (hne : kind ≠ kind') {es : List Entry}
    (h : extents es ≤ maxMagnitude) :
    ∃ x y z, Decimal.sum? (completedValues kind es) = some x ∧
      Decimal.sum? (completedValues kind' es) = some y ∧ x.sub? y = some z := by
  let done (k : EntryKind) (e : Entry) : Bool := e.kind == k && e.isCompleted
  have hboth : extents (es.filter (done kind)) + extents (es.filter (done kind')) ≤ extents es := by
    refine extents_filter_add_le (fun e he => ?_) es
    obtain ⟨hkind, -⟩ := Bool.and_eq_true_iff.1 he
    simp [done, eq_of_beq hkind, hne]
  have hfirst : extents (es.filter (done kind)) ≤ maxMagnitude := by omega
  have hsecond : extents (es.filter (done kind')) ≤ maxMagnitude := by omega
  obtain ⟨x, hx, hxle⟩ := sum?_of_extents hfirst
  obtain ⟨y, hy, hyle⟩ := sum?_of_extents hsecond
  obtain ⟨z, hz, -⟩ := sub?_of_extent (a := x) (b := y) (by omega)
  exact ⟨x, y, z, hx, hy, hz⟩

theorem OrderSummary.of?_of_extents {es : List Entry} (h : extents es ≤ maxMagnitude) :
    ∃ s, OrderSummary.of? es = some s := by
  obtain ⟨x, y, z, hx, hy, hz⟩ := completedValues_of_extents .payment .refund (by simp) h
  simp [OrderSummary.of?, hx, hy, hz]

theorem WalletSummary.of?_of_extents {es : List Entry} (h : extents es ≤ maxMagnitude) :
    ∃ s, WalletSummary.of? es = some s := by
  obtain ⟨x, y, z, hx, hy, hz⟩ := completedValues_of_extents .charge .withdrawal (by simp) h
  simp [WalletSummary.of?, hx, hy, hz]

end Paybook
