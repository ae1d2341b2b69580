import Mathlib.Data.Set.Finite.Range
import Paybook.Proofs.Locks.Progress
import Paybook.Proofs.Service.Crowd

/-! # Calls never block each other

Every call takes its locks at one place, in the order of all keys. So of the calls that wait for a
lock the one that waits for the last key finds it taken by nobody who waits: neither callers of the
lock table nor calls on a ledger ever come to a state where all of them wait, `deadlock_free`. -/

namespace Paybook

open Program
open Relation (ReflTransGen)

/-! ## Crowds -/

/-- The key that a program is about to take. -/
def Program.awaited? {α : Type} : Program α → Option LockKey
  | ask (.lock key) _ => some key
  | _ => none

/-- Whether a caller has come to its end and given back its locks. -/
def Caller.IsFinished (c : Caller) : Prop := (∃ o, c.rest = .done o) ∧ c.taken = []

namespace Crowd

variable {ι : Type} {k k' : Crowd ι} {i : ι}

/-- Whether a caller waits for a lock that somebody has, another one or itself. -/
def Waits (k : Crowd ι) (i : ι) : Prop :=
  ∃ key, (k.callers i).rest.awaited? = some key ∧ ∃ j, key ∈ (k.callers j).taken

/-- Whether there are callers that have not finished, and each of them waits for a lock that
somebody has. -/
def Deadlocked (k : Crowd ι) : Prop :=
  (∃ i, ¬(k.callers i).IsFinished) ∧ ∀ i, ¬(k.callers i).IsFinished → k.Waits i

/-- Whether every caller takes its locks in their order. -/
def Ascending (k : Crowd ι) : Prop := ∀ i, (k.callers i).rest.Ascends (k.callers i).taken

theorem Ascending.precedes_awaited (h : k.Ascending) {key key' : LockKey}
    (hkey : (k.callers i).rest.awaited? = some key) (htaken : key' ∈ (k.callers i).taken) :
    key'.precedes key = true := by
  have hi := h i
  revert hkey hi
  cases (k.callers i).rest with
  | done o => exact nofun
  | ask r next =>
    cases r with
    | lock =>
      rintro ⟨⟩ hi
      exact hi.1 key rfl key' htaken
    | _ => exact nofun

/-- While all callers take their locks in their order, some caller that has not finished does not
wait for a lock that somebody has. -/
theorem Ascending.not_deadlocked [Finite ι] (h : k.Ascending) : ¬k.Deadlocked := by
  rintro ⟨⟨i, hi⟩, hwaits⟩
  have hfin : {key | ∃ j, (k.callers j).rest.awaited? = some key}.Finite := by
    have hrange := Set.finite_range fun j => (k.callers j).rest.awaited?
    refine (hrange.preimage (Option.some_injective LockKey).injOn).subset ?_
    rintro key ⟨j, hj⟩
    exact ⟨j, hj⟩
  obtain ⟨key₀, hkey₀, -⟩ := hwaits i hi
  obtain ⟨key, ⟨j, hj⟩, hlast⟩ := LockKey.exists_last hfin ⟨key₀, i, hkey₀⟩
  have hunfinished : ¬(k.callers j).IsFinished := by
    rintro ⟨⟨o, ho⟩, -⟩
    rw [ho] at hj
    cases hj
  obtain ⟨key₁, hj₁, holder, hholder⟩ := hwaits j hunfinished
  obtain rfl : key = key₁ := Option.some.inj (hj.symm.trans hj₁)
  -- Who has the last of these keys waits for a later one.
  obtain ⟨key₂, hkey₂, -⟩ := hwaits holder fun hf => List.ne_nil_of_mem hholder hf.2
  have hlt := h.precedes_awaited hkey₂ hholder
  rw [hlast _ ⟨holder, hkey₂⟩] at hlt
  cases hlt

theorem ascending_start (t : Terms) (w : World) (calls : ι → Call) :
    (start t w calls).Ascending := fun i => ((calls i).acquiresOnce t).ascends

variable [DecidableEq ι]

theorem Ascending.move (h : k.Ascending) {w : World} {c : Caller} (hc : c.rest.Ascends c.taken) :
    (k.move i w c).Ascending :=
  forall_callers_move (P := fun c => c.rest.Ascends c.taken) hc fun j _ => h j

theorem Ascending.step (h : k.Ascending) (hs : k.Step k') : k'.Ascending := by
  cases hs with
  | lock i key next rest =>
    have hi := h i
    rw [rest] at hi
    exact h.move (hi.2 ())
  | request i r next rest other =>
    have hi := h i
    rw [rest] at hi
    refine h.move ?_
    cases r with
    | lock => exact absurd other id
    | _ => exact hi.2 _
  | leave => exact h.move trivial
  | user | order | time => exact h

theorem Ascending.reaches (h : k.Ascending) (hr : ReflTransGen Step k k') : k'.Ascending := by
  induction hr with
  | refl => exact h
  | tail _ hs ih => exact ih.step hs

end Crowd

/-- Callers that acquire keys, any keys in any order and once each, never come to a state where all
of those that are left wait for a key that is held: one of them does not wait, or may be granted
what it waits for. Every call on a ledger acquires keys at most once, and calls side by side never
come to such a state either. -/
theorem deadlock_free (ν ι : Type) [DecidableEq ν] [DecidableEq ι] [Fintype ι] :
    (∀ t : LockTable ν, ReflTransGen LockTable.Step {} t → ¬t.Deadlocked ∧ (t.holders ≠ [] →
      ∃ h ∈ t.holders, ∀ s, h.awaited = some s → t.isHeld s.mutex = false)) ∧
    (∀ (t : Terms) (c : Call), (c.program t).AcquiresOnce) ∧
    ∀ (t : Terms) (w : World) (calls : ι → Call) (k : Crowd ι),
      ReflTransGen Crowd.Step (Crowd.start t w calls) k → ¬k.Deadlocked := by
  refine ⟨fun t ht => ?_, fun t c => c.acquiresOnce t, fun t w calls k hk => ?_⟩
  · have hsound := LockTable.Sound.empty.reaches ht
    exact ⟨hsound.not_deadlocked, hsound.exists_ready⟩
  · exact ((Crowd.ascending_start t w calls).reaches hk).not_deadlocked

/-- Two callers ask for two keys in opposite orders: one gets both, the other one waits, and holds
nothing. -/
theorem deadlock_free_in_opposite_orders :
    let t := (({} : LockTable Nat).acquire 1 [.user 7, .order 3, .user 7]).acquire 2
      [.order 3, .user 7]
    ReflTransGen LockTable.Step {} t ∧ t.holding = [1] ∧ t.waiting = [2] ∧
      (∀ h ∈ t.holders, h.name = 2 → h.held = []) ∧ ¬t.Deadlocked := by
  intro t
  have hsteps : ReflTransGen LockTable.Step {} t :=
    (LockTable.steps_acquire (by simp) _).trans (LockTable.steps_acquire (by decide) _)
  exact ⟨hsteps, by decide, by decide, by decide, ((deadlock_free Nat Unit).1 t hsteps).1⟩

end Paybook
