import Mathlib.Logic.Relation
import Paybook.Locks.Table

/-! # Steps of the lock table

What callers do to the table comes in steps that may follow each other in any order: one enters,
looks up the slot of its next key, starts to wait for the mutex that it found there, gets it, gives
the wait up, or leaves. Between the look-up and the wait, and between the wait and the mutex, other
callers may do anything, prune the table included. Of a mutex nothing is assumed but that it is only
granted while nobody holds it; who is first in line plays no part. Asking, acquiring and releasing
are made of these steps. Callers that look up a key and give up make a table outgrow its limit. -/

namespace Paybook.LockTable

open Relation (ReflTransGen)

variable {ν : Type} [DecidableEq ν] {t t' : LockTable ν} {h x : LockHolder ν}

/-- A caller looks up the slot of its next key. -/
def lookUp (t : LockTable ν) (h : LockHolder ν) : LockTable ν :=
  match h.ahead with
  | [] => t
  | key :: keys => (t.slot key).2.put { h with awaited := some (t.slot key).1, ahead := keys }

/-- A caller starts to wait for a mutex. -/
def lineUp (t : LockTable ν) (name : ν) (mutex : Nat) : LockTable ν :=
  { t with queue := t.queue ++ [(mutex, name)] }

/-- A caller gives up its wait and its further keys, and keeps what it holds. -/
def cancel (t : LockTable ν) (h : LockHolder ν) : LockTable ν :=
  let t : LockTable ν := { t with queue := t.queue.filter fun (_, waiting) => waiting ≠ h.name }
  t.put { h with awaited := none, ahead := [] }

/-- The steps of a table. -/
inductive Step (t : LockTable ν) : LockTable ν → Prop where
  | enter (name : ν) (keys : List LockKey) (fresh : ∀ h ∈ t.holders, h.name ≠ name) :
      t.Step (t.enter name keys)
  | lookUp (h : LockHolder ν) (present : h ∈ t.holders) (idle : h.awaited = none) :
      t.Step (t.lookUp h)
  | lineUp (h : LockHolder ν) (s : LockSlot) (present : h ∈ t.holders)
      (awaits : h.awaited = some s) : t.Step (t.lineUp h.name s.mutex)
  | grant (h : LockHolder ν) (s : LockSlot) (present : h ∈ t.holders) (awaits : h.awaited = some s)
      (free : t.isHeld s.mutex = false) : t.Step (t.grant h)
  | cancel (h : LockHolder ν) (present : h ∈ t.holders) : t.Step (t.cancel h)
  | leave (name : ν) : t.Step (t.leave name)

/-! ## Callers replaced -/

theorem mem_put : x ∈ (t.put h).holders ↔
    (x ∈ t.holders ∧ x.name ≠ h.name) ∨ (x = h ∧ ∃ old ∈ t.holders, old.name = h.name) := by
  change x ∈ t.holders.map _ ↔ _
  rw [List.mem_map]
  constructor
  · rintro ⟨old, hold, rfl⟩
    split
    · next hname => exact .inr ⟨rfl, old, hold, hname⟩
    · next hname => exact .inl ⟨hold, hname⟩
  · rintro (⟨hx, hname⟩ | ⟨rfl, old, hold, hname⟩)
    · exact ⟨x, hx, if_neg hname⟩
    · exact ⟨old, hold, if_pos hname⟩

theorem names_put (t : LockTable ν) (h : LockHolder ν) :
    (t.put h).holders.map LockHolder.name = t.holders.map LockHolder.name := by
  change (t.holders.map _).map _ = _
  rw [List.map_map]
  refine List.map_congr_left fun old _ => ?_
  rw [Function.comp]
  split
  · next hname => exact hname.symm
  · rfl

/-! ## Progress in steps -/

omit [DecidableEq ν] in
@[simp] theorem holders_pruned (t : LockTable ν) : t.pruned.holders = t.holders := by
  unfold pruned
  split <;> rfl

omit [DecidableEq ν] in
@[simp] theorem holders_slot (t : LockTable ν) (key : LockKey) :
    (t.slot key).2.holders = t.holders := by
  rw [slot]
  split
  · exact holders_pruned t
  · exact holders_pruned t

omit [DecidableEq ν] in
@[simp] theorem queue_pruned (t : LockTable ν) : t.pruned.queue = t.queue := by
  unfold pruned
  split <;> rfl

omit [DecidableEq ν] in
@[simp] theorem queue_slot (t : LockTable ν) (key : LockKey) : (t.slot key).2.queue = t.queue := by
  rw [slot]
  split
  · exact queue_pruned t
  · exact queue_pruned t

/-- A caller that asks for its next key looks up the slot and starts to wait. -/
theorem ask_eq {key : LockKey} {keys : List LockKey} (hahead : h.ahead = key :: keys) :
    t.ask h = (t.lookUp h).lineUp h.name (t.slot key).1.mutex := by
  rw [ask, lookUp, hahead]
  rfl

theorem steps_ask (hmem : h ∈ t.holders) (hidle : h.awaited = none) (hahead : h.ahead ≠ []) :
    ReflTransGen Step t (t.ask h) := by
  obtain ⟨key, keys, hkeys⟩ := List.exists_cons_of_ne_nil hahead
  let h' : LockHolder ν := { h with awaited := some (t.slot key).1, ahead := keys }
  have hmem' : h' ∈ (t.lookUp h).holders := by
    rw [lookUp, hkeys]
    exact mem_put.2 (.inr ⟨rfl, h, (holders_slot t key).symm ▸ hmem, rfl⟩)
  rw [ask_eq hkeys]
  exact (ReflTransGen.single (.lookUp h hmem hidle)).tail (.lineUp h' _ hmem' rfl)

theorem steps_progress? (hmem : h ∈ t.holders) (ht : t.progress? h = some t') :
    ReflTransGen Step t t' := by
  unfold progress? at ht
  split at ht
  · next s hs =>
    split at ht
    · next hnext =>
      cases ht
      rw [isNext, Bool.and_eq_true, Bool.not_eq_true'] at hnext
      exact .single (.grant h s hmem hs hnext.1)
    · cases ht
  · next hidle =>
    split at ht
    · cases ht
    · next hahead =>
      cases ht
      exact steps_ask hmem hidle (by simpa using hahead)

theorem steps_advance (t : LockTable ν) (name : ν) (steps : Nat) :
    ReflTransGen Step t (t.advance name steps) := by
  induction steps generalizing t with
  | zero => exact .refl
  | succ steps ih =>
    rw [advance]
    split
    · next t' ht =>
      obtain ⟨h, hfind, hprogress⟩ := Option.bind_eq_some_iff.1 ht
      exact (steps_progress? (List.mem_of_find?_eq_some hfind) hprogress).trans (ih t')
    · exact .refl

/-- Letting callers make the steps they can is made of steps. -/
theorem steps_settle (t : LockTable ν) : ReflTransGen Step t t.settle := by
  rw [settle]
  suffices h : ∀ (hs : List (LockHolder ν)) (t : LockTable ν), ReflTransGen Step t
      (hs.foldl (fun t h => t.advance h.name (2 * h.ahead.length + 1)) t) from h t.holders t
  intro hs
  induction hs with
  | nil => exact fun _ => .refl
  | cons h hs ih => exact fun t => (steps_advance t h.name _).trans (ih _)

/-- Acquiring keys under a new name is made of steps. -/
theorem steps_acquire {name : ν} (hfresh : ∀ h ∈ t.holders, h.name ≠ name) (keys : List LockKey) :
    ReflTransGen Step t (t.acquire name keys) :=
  (ReflTransGen.single (.enter name keys hfresh)).trans (steps_settle _)

/-- Releasing keys is made of steps. -/
theorem steps_release (t : LockTable ν) (name : ν) : ReflTransGen Step t (t.release name) :=
  (ReflTransGen.single (.leave name)).trans (steps_settle _)

/-! ## Look-ups of new callers -/

omit [DecidableEq ν] in
theorem mem_enter (t : LockTable ν) (name : ν) (keys : List LockKey) :
    ⟨name, [], none, LockKey.schedule keys⟩ ∈ (t.enter name keys).holders :=
  List.mem_append_right _ List.mem_cons_self

omit [DecidableEq ν] in
/-- A new caller uses no slot yet. -/
theorem isUsed_enter (t : LockTable ν) (name : ν) (keys : List LockKey) :
    (t.enter name keys).isUsed = t.isUsed := by
  funext s
  simp [isUsed, enter, LockHolder.slots]

omit [DecidableEq ν] in
theorem pruned_enter (t : LockTable ν) (name : ν) (keys : List LockKey) :
    (t.enter name keys).pruned = t.pruned.enter name keys := by
  unfold pruned
  rw [isUsed_enter]
  change (if slotLimit < t.slots.length then _ else _) = _
  split <;> rfl

omit [DecidableEq ν] in
theorem slot_enter (t : LockTable ν) (name : ν) (keys : List LockKey) (key : LockKey) :
    (t.enter name keys).slot key = ((t.slot key).1, (t.slot key).2.enter name keys) := by
  unfold slot
  rw [pruned_enter]
  simp only [enter]
  cases t.pruned.slots.find? fun s => s.key = key <;> rfl

/-- A new caller that looks up a key finds the slot that the table has found or made without it. -/
theorem lookUp_enter (t : LockTable ν) (name : ν) (key : LockKey) :
    (t.enter name [key]).lookUp ⟨name, [], none, [key]⟩ =
      ((t.slot key).2.enter name [key]).put ⟨name, [], some (t.slot key).1, []⟩ := by
  change ((t.enter name [key]).slot key).2.put _ = _
  rw [slot_enter]

/-- A caller that leaves before it waits for anything leaves no trace of itself. -/
theorem leave_put_enter {name : ν} (hfresh : ∀ h ∈ t.holders, h.name ≠ name)
    (hqueue : ∀ q ∈ t.queue, q.2 ≠ name) (keys : List LockKey) (hname : h.name = name) :
    ((t.enter name keys).put h).leave name = t := by
  have hput : t.holders.map (fun old => if old.name = h.name then h else old) = t.holders :=
    (List.map_congr_left fun old hold => if_neg (hname ▸ hfresh old hold)).trans (List.map_id _)
  have hholders : ((t.enter name keys).put h).holders = t.holders ++ [h] := by
    change (t.holders ++ [_]).map _ = _
    rw [List.map_append, hput]
    simp [hname]
  have hleft : ((t.enter name keys).put h).holders.filter (fun h => h.name ≠ name) = t.holders := by
    rw [hholders, List.filter_append]
    simpa [hname] using hfresh
  have hqueued : t.queue.filter (fun q => q.2 ≠ name) = t.queue := by
    simpa using hqueue
  calc ((t.enter name keys).put h).leave name
      = { t with holders := ((t.enter name keys).put h).holders.filter (fun h => h.name ≠ name)
                 queue := t.queue.filter fun q => q.2 ≠ name } := rfl
    _ = t := by rw [hleft, hqueued]

/-- Looking up a slot for nothing is made of steps: a new caller looks it up and leaves. -/
theorem steps_slot {name : ν} (hfresh : ∀ h ∈ t.holders, h.name ≠ name)
    (hqueue : ∀ q ∈ t.queue, q.2 ≠ name) (key : LockKey) : ReflTransGen Step t (t.slot key).2 := by
  have hlookUp : ReflTransGen Step t
      (((t.slot key).2.enter name [key]).put ⟨name, [], some (t.slot key).1, []⟩) := by
    rw [← lookUp_enter]
    exact (ReflTransGen.single (.enter name [key] hfresh)).tail (.lookUp _ (mem_enter ..) rfl)
  have hleave : (((t.slot key).2.enter name [key]).put
      ⟨name, [], some (t.slot key).1, []⟩).leave name = (t.slot key).2 :=
    leave_put_enter (by simpa using hfresh) (by simpa using hqueue) [key] rfl
  exact hleave ▸ hlookUp.tail (.leave name)

/-- The table after some keys have been looked up for nothing. -/
def visited (t : LockTable ν) (keys : List LockKey) : LockTable ν :=
  keys.foldl (fun t key => (t.slot key).2) t

omit [DecidableEq ν] in
@[simp] theorem holders_visited (t : LockTable ν) (keys : List LockKey) :
    (t.visited keys).holders = t.holders := by
  induction keys generalizing t with
  | nil => rfl
  | cons key keys ih => exact (ih _).trans (holders_slot t key)

theorem steps_visited {name : ν} (hfresh : ∀ h ∈ t.holders, h.name ≠ name)
    (hqueue : ∀ q ∈ t.queue, q.2 ≠ name) (keys : List LockKey) :
    ReflTransGen Step t (t.visited keys) := by
  induction keys generalizing t with
  | nil => exact .refl
  | cons key keys ih =>
    refine (steps_slot hfresh hqueue key).trans (ih ?_ ?_)
    · simpa using hfresh
    · simpa using hqueue

omit [DecidableEq ν] in
/-- A slot is made for a key that has none, and nothing is pruned up to the limit. -/
theorem slots_slot {key : LockKey} (hroom : t.slots.length ≤ slotLimit)
    (hnew : ∀ s ∈ t.slots, s.key ≠ key) : (t.slot key).2.slots = ⟨key, t.made⟩ :: t.slots := by
  have hpruned : t.pruned = t := if_neg (Nat.not_lt.2 hroom)
  have hfind : t.slots.find? (fun s => s.key = key) = none := by
    simpa using hnew
  simp only [slot, hpruned, hfind]

omit [DecidableEq ν] in
/-- Slots of keys that have none may be made until there is one more than the limit. -/
theorem length_slots_visited {keys : List LockKey} (hkeys : keys.Nodup)
    (hnew : ∀ key ∈ keys, ∀ s ∈ t.slots, s.key ≠ key)
    (hroom : t.slots.length + keys.length ≤ slotLimit + 1) :
    (t.visited keys).slots.length = t.slots.length + keys.length := by
  induction keys generalizing t with
  | nil => rfl
  | cons key keys ih =>
    rw [List.length_cons] at hroom
    obtain ⟨hfirst, hkeys⟩ := List.nodup_cons.1 hkeys
    have hslots : (t.slot key).2.slots = ⟨key, t.made⟩ :: t.slots :=
      slots_slot (by omega) (hnew key List.mem_cons_self)
    have hnew' : ∀ k ∈ keys, ∀ s ∈ (t.slot key).2.slots, s.key ≠ k := by
      intro k hk
      rw [hslots]
      refine List.forall_mem_cons.2 ⟨?_, hnew k (List.mem_cons_of_mem _ hk)⟩
      rintro rfl
      exact hfirst hk
    have hlength := ih hkeys hnew' (by rw [hslots, List.length_cons]; omega)
    rw [hslots] at hlength
    refine hlength.trans ?_
    rw [List.length_cons, List.length_cons]
    omega

omit [DecidableEq ν] in
/-- Past the limit, a look-up leaves the slots in use, and the one that it has found or made. -/
theorem mem_slots_of_crowded {key : LockKey} {s : LockSlot} (hcrowded : slotLimit < t.slots.length)
    (hs : s ∈ (t.slot key).2.slots) : s = (t.slot key).1 ∨ s ∈ t.slots.filter t.isUsed := by
  have hpruned : t.pruned.slots = t.slots.filter t.isUsed := by
    rw [pruned, if_pos hcrowded]
  rw [← hpruned]
  unfold slot at hs ⊢
  dsimp only at hs ⊢
  cases hfind : t.pruned.slots.find? fun s => s.key = key with
  | some s' =>
    rw [hfind] at hs
    exact .inr hs
  | none =>
    rw [hfind] at hs
    exact List.mem_cons.1 hs

end Paybook.LockTable
