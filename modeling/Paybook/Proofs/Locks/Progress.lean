import Mathlib.Data.Prod.Lex
import Mathlib.Data.Set.Finite.Lemmas
import Paybook.Proofs.Locks.Exclusion

/-! # Callers never block each other

A caller that waits for a key holds earlier ones only. Of the keys that are waited for, the last one
is therefore not held by anybody who waits, `LockTable.Sound.not_deadlocked`, and some caller is
always ready to go on, `LockTable.Sound.exists_ready`. -/

namespace Paybook

namespace LockKey

theorem precedes_iff_toLex {a b : LockKey} :
    a.precedes b = true ↔ toLex a.rank < toLex b.rank := by
  rw [precedes_iff, Prod.Lex.toLex_lt_toLex]

/-- Among finitely many keys there is one that comes before no other one. -/
theorem exists_last {S : Set LockKey} (hfin : S.Finite) (hne : S.Nonempty) :
    ∃ k ∈ S, ∀ k' ∈ S, k.precedes k' = false := by
  obtain ⟨k, hk, hmax⟩ := Set.exists_max_image S (fun k => toLex k.rank) hfin hne
  refine ⟨k, hk, fun k' hk' => Bool.eq_false_iff.2 fun hlt => ?_⟩
  exact absurd (precedes_iff_toLex.1 hlt) (not_lt.2 (hmax k' hk'))

end LockKey

namespace LockTable

variable {ν : Type} {t : LockTable ν} {h : LockHolder ν}

/-- Whether a caller waits for a key that somebody holds, another one or itself. -/
def Waits (t : LockTable ν) (h : LockHolder ν) : Prop :=
  ∃ s, h.awaited = some s ∧ ∃ h' ∈ t.holders, ∃ s' ∈ h'.held, s'.key = s.key

/-- Whether there are callers, and each of them waits for a key that is held. -/
def Deadlocked (t : LockTable ν) : Prop := t.holders ≠ [] ∧ ∀ h ∈ t.holders, t.Waits h

/-- The keys that callers wait for. -/
def awaitedKeys (t : LockTable ν) : List LockKey :=
  t.holders.flatMap fun h => h.awaited.toList.map LockSlot.key

theorem mem_awaitedKeys {k : LockKey} :
    k ∈ t.awaitedKeys ↔ ∃ h ∈ t.holders, ∃ s, h.awaited = some s ∧ s.key = k := by
  simp [awaitedKeys, eq_comm]

/-- A caller holds only keys that come before the one it waits for. -/
theorem Sound.precedes_awaited (ht : t.Sound) (hmem : h ∈ t.holders) {s s' : LockSlot}
    (hs : h.awaited = some s) (hs' : s' ∈ h.held) : s'.key.precedes s.key = true := by
  have hasc := ht.ascending h hmem
  rw [LockHolder.slots, List.map_append, List.append_assoc, List.pairwise_append] at hasc
  refine hasc.2.2 _ (List.mem_map_of_mem hs') _ (List.mem_append_left _ ?_)
  simp [hs]

/-- In a sound table some caller does not wait for a held key. -/
theorem Sound.not_deadlocked (ht : t.Sound) : ¬t.Deadlocked := by
  rintro ⟨hne, hwaits⟩
  have hawaited : {k | k ∈ t.awaitedKeys}.Nonempty := by
    obtain ⟨h, hmem⟩ := List.exists_mem_of_ne_nil _ hne
    obtain ⟨s, hs, -⟩ := hwaits h hmem
    exact ⟨s.key, mem_awaitedKeys.2 ⟨h, hmem, s, hs, rfl⟩⟩
  obtain ⟨k, hk, hlast⟩ := LockKey.exists_last (List.finite_toSet _) hawaited
  obtain ⟨h, hmem, s, hs, rfl⟩ := mem_awaitedKeys.1 hk
  obtain ⟨s₁, hs₁, h', hmem', s', hs', hkey⟩ := hwaits h hmem
  obtain rfl : s = s₁ := Option.some.inj (hs.symm.trans hs₁)
  -- Who holds the last of these keys waits for a later one.
  obtain ⟨s₂, hs₂, -⟩ := hwaits h' hmem'
  have hlt := ht.precedes_awaited hmem' hs₂ hs'
  rw [hkey, hlast _ (mem_awaitedKeys.2 ⟨h', hmem', s₂, hs₂, rfl⟩)] at hlt
  cases hlt

/-- In a sound table with callers, one of them does not wait, or may get what it waits for. -/
theorem Sound.exists_ready (ht : t.Sound) (hne : t.holders ≠ []) :
    ∃ h ∈ t.holders, ∀ s, h.awaited = some s → t.isHeld s.mutex = false := by
  obtain ⟨h, hmem, hready⟩ : ∃ h ∈ t.holders, ¬t.Waits h := by
    by_contra hall
    push Not at hall
    exact ht.not_deadlocked ⟨hne, hall⟩
  refine ⟨h, hmem, fun s hs => Bool.eq_false_iff.2 fun hheld => hready ⟨s, hs, ?_⟩⟩
  exact (ht.isHeld_iff hmem (List.mem_append_right _ (by simp [hs]))).1 hheld

end LockTable

end Paybook
