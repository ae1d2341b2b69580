import Paybook.Proofs.Store.Extends
import Paybook.Proofs.Text.Trimming

/-! # Well-formed entries

A draft is well formed when it names a user, and an order exactly if it is for one. The entry that
it becomes is well formed too, and stays so under every change that completes it under a trimmed
reference: its reference and the time at which it was brought to its end go with its status. -/

namespace Paybook

open Text (IsTrimmed)
open Time

/-- Whether a draft names a user, and an order exactly if it is for one. -/
structure Draft.WellFormed (d : Draft) : Prop where
  user : d.user ≠ 0
  ordered : d.order.isSome = true ↔ d.kind ∈ EntryKind.ofOrder
  order : ∀ o, d.order = some o → o ≠ 0

/-- Whether an entry names a user, and an order exactly if it is for one, has a reference exactly if
it is completed, and was brought to its end by its last change exactly if its status is final. -/
structure Entry.WellFormed (e : Entry) : Prop where
  user : e.user ≠ 0
  ordered : e.order.isSome = true ↔ e.kind ∈ EntryKind.ofOrder
  order : ∀ o, e.order = some o → o ≠ 0
  referenced : e.reference.isSome = true ↔ e.status = .completed
  reference : ∀ r, e.reference = some r → IsTrimmed r
  processed : e.processedAt = if e.isFinal then some e.updatedAt else none

/-- Whether a change sets no reference but a trimmed one. -/
def Change.Fit (c : Change) : Prop := ∀ r, c.reference? = some r → IsTrimmed r

/-- A draft of a wallet is for no order. -/
theorem Draft.WellFormed.of_wallet {d : Draft} (huser : d.user ≠ 0) (horder : d.order = none)
    (hkind : d.kind ∈ EntryKind.ofWallet) : d.WellFormed := by
  refine ⟨huser, ?_, fun o ho => ?_⟩
  · rw [horder]
    cases hk : d.kind <;> simp_all [EntryKind.ofWallet, EntryKind.ofOrder]
  · rw [horder] at ho
    cases ho

theorem Draft.WellFormed.of_order {d : Draft} {o : Nat} (huser : d.user ≠ 0)
    (horder : d.order = some o) (ho : o ≠ 0) (hkind : d.kind ∈ EntryKind.ofOrder) :
    d.WellFormed := by
  refine ⟨huser, ?_, fun o' ho' => ?_⟩
  · simp [horder, hkind]
  · rw [horder] at ho'
    cases ho'
    exact ho

namespace Entry.WellFormed

variable {e : Entry}

theorem ofDraft {d : Draft} (h : d.WellFormed) (id : Nat) (now : Instant) :
    (Entry.ofDraft id d now).WellFormed where
  user := h.user
  ordered := h.ordered
  order := h.order
  referenced := by simp [Entry.ofDraft]
  reference := nofun
  processed := rfl

/-- Changes of pending entries keep them well formed. -/
theorem result (h : e.WellFormed) (hp : e.status = .pending) {c : Change} (hc : c.Fit)
    (now : Instant) : (c.result e now).WellFormed := by
  have hnone : e.reference = none := by
    have := mt h.referenced.1 (by simp [hp])
    simpa using this
  have hprocessed : e.processedAt = none := by simp [h.processed, isFinal_eq_false.2 hp]
  cases c with
  | complete r =>
    refine ⟨h.user, h.ordered, h.order, ?_, ?_, rfl⟩
    · simp [Change.result, finished]
    · rintro _ ⟨⟩
      exact hc r rfl
  | fail | cancel =>
    refine ⟨h.user, h.ordered, h.order, ?_, h.reference, rfl⟩
    simp [Change.result, finished, hnone]
  | note =>
    refine ⟨h.user, h.ordered, h.order, h.referenced, h.reference, ?_⟩
    simp [Change.result, hprocessed, isFinal, Status.isFinal, hp]

/-- A change that succeeds keeps an entry well formed. -/
theorem apply (h : e.WellFormed) {c : Change} (hc : c.Fit) {now : Instant} {e' : Entry}
    (ha : c.apply e now = .ok e') : e'.WellFormed := by
  obtain ⟨hp, rfl⟩ := Change.apply_eq_ok.1 ha
  exact h.result hp hc now

theorem bumped (h : e.WellFormed) : (Store.bumped e).WellFormed :=
  ⟨h.user, h.ordered, h.order, h.referenced, h.reference, h.processed⟩

end Entry.WellFormed

/-- Whether all entries of a store are well formed. -/
def Store.WellFormed (s : Store) : Prop := ∀ e ∈ s.entries, e.WellFormed

theorem Store.WellFormed.empty : Store.empty.WellFormed := fun _ h => absurd h List.not_mem_nil

end Paybook
