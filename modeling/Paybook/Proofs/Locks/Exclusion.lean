import Mathlib.Data.List.Nodup
import Mathlib.Data.List.Pairwise
import Paybook.Proofs.Locks.Steps

/-! # Keys are held by one caller at a time

A key could be held twice if its slot were dropped while somebody still refers to it, and made anew
with another mutex. It is not: a slot that a caller holds or waits for is in the table and stays
there when the table is pruned, and keys have one slot each. So the mutex of a key is the same for
all of its holders and waiters, and whoever gets it finds the key held by nobody:
`LockTable.exclusive`. -/

namespace Paybook

open Relation (ReflTransGen)

/-- Whether two callers hold no key in common. -/
def LockHolder.Apart {ν : Type} (h h' : LockHolder ν) : Prop :=
  ∀ s ∈ h.held, ∀ s' ∈ h'.held, s.key ≠ s'.key

theorem LockHolder.Apart.symm {ν : Type} {h h' : LockHolder ν} (ha : h.Apart h') : h'.Apart h :=
  fun s hs s' hs' hkey => ha s' hs' s hs hkey.symm

instance {ν : Type} : Std.Symm (LockHolder.Apart (ν := ν)) := ⟨fun _ _ => LockHolder.Apart.symm⟩

namespace LockTable

variable {ν : Type} [DecidableEq ν] {t t' : LockTable ν} {h x : LockHolder ν} {s : LockSlot}

omit [DecidableEq ν] in
theorem isUsed_of_mem (hmem : h ∈ t.holders) (hs : s ∈ h.slots) : t.isUsed s = true :=
  List.any_eq_true.2 ⟨h, hmem, List.any_eq_true.2 ⟨s, hs, beq_self_eq_true _⟩⟩

/-- What holds of a table at all times. -/
structure Sound (t : LockTable ν) : Prop where
  /-- Callers have different names. -/
  names : (t.holders.map LockHolder.name).Nodup
  /-- Keys have one slot each. -/
  keys : (t.slots.map LockSlot.key).Nodup
  /-- Slots have different mutexes. -/
  mutexes : (t.slots.map LockSlot.mutex).Nodup
  /-- Mutexes that are made next are new. -/
  made : ∀ s ∈ t.slots, s.mutex < t.made
  /-- What is held or waited for is in the table. -/
  used : ∀ h ∈ t.holders, ∀ s ∈ h.slots, s ∈ t.slots
  /-- No two callers hold a key in common. -/
  apart : t.holders.Pairwise LockHolder.Apart
  /-- Callers take their keys in their order. -/
  ascending : ∀ h ∈ t.holders,
    (h.slots.map LockSlot.key ++ h.ahead).Pairwise fun a b => a.precedes b = true

omit [DecidableEq ν] in
theorem Sound.empty : Sound ({} : LockTable ν) where
  names := List.nodup_nil
  keys := List.nodup_nil
  mutexes := List.nodup_nil
  made _ hs := absurd hs List.not_mem_nil
  used _ hmem := absurd hmem List.not_mem_nil
  apart := List.Pairwise.nil
  ascending _ hmem := absurd hmem List.not_mem_nil

namespace Sound

omit [DecidableEq ν] in
theorem eq_of_key_eq (ht : t.Sound) {s s' : LockSlot} (hs : s ∈ t.slots) (hs' : s' ∈ t.slots)
    (hkey : s.key = s'.key) : s = s' :=
  List.inj_on_of_nodup_map ht.keys hs hs' hkey

omit [DecidableEq ν] in
theorem eq_of_mutex_eq (ht : t.Sound) {s s' : LockSlot} (hs : s ∈ t.slots) (hs' : s' ∈ t.slots)
    (hmutex : s.mutex = s'.mutex) : s = s' :=
  List.inj_on_of_nodup_map ht.mutexes hs hs' hmutex

/-! ## Slots -/

omit [DecidableEq ν] in
/-- Pruning drops no slot that somebody holds or waits for. -/
theorem pruned (ht : t.Sound) : t.pruned.Sound := by
  unfold LockTable.pruned
  split
  · refine ⟨ht.names, (List.filter_sublist.map _).nodup ht.keys,
      (List.filter_sublist.map _).nodup ht.mutexes, fun s hs => ?_, fun h hmem s hs => ?_, ht.apart,
      ht.ascending⟩
    · exact ht.made s (List.mem_filter.1 hs).1
    · exact List.mem_filter.2 ⟨ht.used h hmem s hs, isUsed_of_mem hmem hs⟩
  · exact ht

omit [DecidableEq ν] in
/-- Looking up a slot finds the one of the key, or makes it under a key that has none. -/
theorem slot (ht : t.Sound) (key : LockKey) :
    (t.slot key).2.Sound ∧ (t.slot key).1 ∈ (t.slot key).2.slots ∧ (t.slot key).1.key = key := by
  have hp := ht.pruned
  unfold LockTable.slot
  dsimp only
  split
  · next s hs =>
    exact ⟨hp, List.mem_of_find?_eq_some hs, by simpa using List.find?_some hs⟩
  · next hnone =>
    refine ⟨⟨hp.names, ?_, ?_, ?_, ?_, hp.apart, hp.ascending⟩, List.mem_cons_self, rfl⟩
    · rw [List.map_cons, List.nodup_cons]
      refine ⟨fun hmem => ?_, hp.keys⟩
      obtain ⟨s, hs, hkey⟩ := List.mem_map.1 hmem
      exact List.find?_eq_none.1 hnone s hs (by simpa using hkey)
    · rw [List.map_cons, List.nodup_cons]
      refine ⟨fun hmem => ?_, hp.mutexes⟩
      obtain ⟨s, hs, hmutex⟩ := List.mem_map.1 hmem
      exact absurd hmutex (Nat.ne_of_lt (hp.made s hs))
    · refine List.forall_mem_cons.2 ⟨Nat.lt_succ_self _, fun s hs => ?_⟩
      exact Nat.lt_succ_of_lt (hp.made s hs)
    · exact fun h hmem s hs => List.mem_cons_of_mem _ (hp.used h hmem s hs)

omit [DecidableEq ν] in
/-- Looking up a key that somebody holds or waits for finds the slot in use. -/
theorem slot_eq (ht : t.Sound) (hmem : h ∈ t.holders) (hs : s ∈ h.slots) :
    (t.slot s.key).1 = s := by
  obtain ⟨hslot, hfound, hkey⟩ := ht.slot s.key
  have hmem' : h ∈ (t.slot s.key).2.holders := (holders_slot t s.key).symm ▸ hmem
  exact hslot.eq_of_key_eq hfound (hslot.used h hmem' s hs) hkey

omit [DecidableEq ν] in
/-- Past the limit, a look-up leaves what somebody holds or waits for, and the slot it returns. -/
theorem eq_slot_or_used (ht : t.Sound) {key : LockKey} (hcrowded : slotLimit < t.slots.length)
    (hs : s ∈ (t.slot key).2.slots) : s = (t.slot key).1 ∨ ∃ h ∈ t.holders, s ∈ h.slots := by
  refine (mem_slots_of_crowded hcrowded hs).imp_right fun hs => ?_
  obtain ⟨hslot, hused⟩ := List.mem_filter.1 hs
  obtain ⟨h, hmem, hsame⟩ := List.any_eq_true.1 hused
  obtain ⟨s', hs', hmutex⟩ := List.any_eq_true.1 hsame
  obtain rfl := ht.eq_of_mutex_eq (ht.used h hmem s' hs') hslot (beq_iff_eq.1 hmutex)
  exact ⟨h, hmem, hs'⟩

/-! ## Callers -/

/-- A caller may be replaced by one that refers to slots of the table, takes its keys in their
order, and holds none that another one holds. -/
theorem put (ht : t.Sound) (used : ∀ s ∈ x.slots, s ∈ t.slots)
    (apart : ∀ y ∈ t.holders, y.name ≠ x.name → x.Apart y)
    (ascending : (x.slots.map LockSlot.key ++ x.ahead).Pairwise fun a b => a.precedes b = true) :
    (t.put x).Sound where
  names := by rw [names_put]; exact ht.names
  keys := ht.keys
  mutexes := ht.mutexes
  made := ht.made
  used h hmem := by
    rcases mem_put.1 hmem with ⟨hmem, -⟩ | ⟨rfl, -⟩
    · exact ht.used h hmem
    · exact used
  apart := by
    have hnames : t.holders.Pairwise fun h h' => h.name ≠ h'.name := List.pairwise_map.1 ht.names
    refine List.pairwise_map.2 ((ht.apart.and hnames).imp_of_mem fun {a b} ha hb hab => ?_)
    obtain ⟨hab, hne⟩ := hab
    split
    · next hname =>
      rw [if_neg fun hname' => hne (hname.trans hname'.symm)]
      exact apart b hb fun hname' => hne (hname.trans hname'.symm)
    · next hname =>
      split
      · exact (apart a ha hname).symm
      · exact hab
  ascending h hmem := by
    rcases mem_put.1 hmem with ⟨hmem, -⟩ | ⟨rfl, -⟩
    · exact ht.ascending h hmem
    · exact ascending

omit [DecidableEq ν] in
/-- No other caller holds a key that a caller holds. -/
theorem apart_of_name_ne (ht : t.Sound) (hmem : h ∈ t.holders) (hx : x ∈ t.holders)
    (hname : x.name ≠ h.name) : h.Apart x :=
  ht.apart.forall hmem hx fun heq => hname (heq ▸ rfl)

omit [DecidableEq ν] in
/-- Who waits for what plays no part. -/
theorem queue (ht : t.Sound) (queue : List (Nat × ν)) :
    ({ t with queue := queue } : LockTable ν).Sound :=
  ⟨ht.names, ht.keys, ht.mutexes, ht.made, ht.used, ht.apart, ht.ascending⟩

/-! ## Steps -/

omit [DecidableEq ν] in
theorem enter (ht : t.Sound) {name : ν} (hfresh : ∀ h ∈ t.holders, h.name ≠ name)
    (keys : List LockKey) : (t.enter name keys).Sound := by
  refine ⟨?_, ht.keys, ht.mutexes, ht.made, ?_, ?_, ?_⟩
  · change ((t.holders ++ [_]).map LockHolder.name).Nodup
    rw [List.map_append, List.nodup_append]
    refine ⟨ht.names, List.nodup_singleton name, ?_⟩
    rintro _ hname _ hnew rfl
    obtain ⟨h, hmem, hh⟩ := List.mem_map.1 hname
    exact hfresh h hmem (hh.trans (List.mem_singleton.1 hnew))
  · refine List.forall_mem_append.2 ⟨ht.used, List.forall_mem_singleton.2 fun s hs => ?_⟩
    exact absurd hs List.not_mem_nil
  · refine List.pairwise_append.2 ⟨ht.apart, List.pairwise_singleton _ _, fun h _ => ?_⟩
    exact List.forall_mem_singleton.2 fun s _ s' hs' => absurd hs' List.not_mem_nil
  · refine List.forall_mem_append.2 ⟨ht.ascending, List.forall_mem_singleton.2 ?_⟩
    exact LockKey.pairwise_schedule keys

theorem lookUp (ht : t.Sound) (hmem : h ∈ t.holders) (hidle : h.awaited = none) :
    (t.lookUp h).Sound := by
  unfold LockTable.lookUp
  split
  · exact ht
  · next key keys hahead =>
    obtain ⟨hs, hslot, hkey⟩ := ht.slot key
    have hheld : h.slots = h.held := by simp [LockHolder.slots, hidle]
    have hmem' : h ∈ (t.slot key).2.holders := (holders_slot t key).symm ▸ hmem
    refine hs.put ?_ (fun y hy hname => hs.apart_of_name_ne (h := h) hmem' hy hname) ?_
    · intro s hs'
      rcases List.mem_append.1 hs' with hs' | hs'
      · exact hs.used h hmem' s (hheld ▸ hs')
      · obtain rfl : s = (t.slot key).1 := by simpa using hs'
        exact hslot
    · have hasc := ht.ascending h hmem
      rw [hheld, hahead] at hasc
      simpa [LockHolder.slots, hkey] using hasc

omit [DecidableEq ν] in
/-- The mutex of a key that somebody holds or waits for is held exactly if the key is. -/
theorem isHeld_iff (ht : t.Sound) (hmem : h ∈ t.holders) (hs : s ∈ h.slots) :
    t.isHeld s.mutex = true ↔ ∃ h' ∈ t.holders, ∃ s' ∈ h'.held, s'.key = s.key := by
  have hslot := ht.used h hmem s hs
  have hheld : ∀ h' ∈ t.holders, ∀ s' ∈ h'.held, s' ∈ t.slots := fun h' hmem' s' hs' =>
    ht.used h' hmem' s' (List.mem_append_left _ hs')
  simp only [isHeld, List.any_eq_true, beq_iff_eq]
  constructor
  · rintro ⟨h', hmem', s', hs', hmutex⟩
    exact ⟨h', hmem', s', hs', congrArg LockSlot.key
      (ht.eq_of_mutex_eq (hheld h' hmem' s' hs') hslot hmutex)⟩
  · rintro ⟨h', hmem', s', hs', hkey⟩
    exact ⟨h', hmem', s', hs', congrArg LockSlot.mutex
      (ht.eq_of_key_eq (hheld h' hmem' s' hs') hslot hkey)⟩

/-- A caller that gets a mutex nobody holds gets a key nobody holds, since the key has no other
mutex. -/
theorem grant (ht : t.Sound) (hmem : h ∈ t.holders) (hs : h.awaited = some s)
    (hfree : t.isHeld s.mutex = false) : (t.grant h).Sound := by
  have hmem_slots : s ∈ h.slots := List.mem_append_right _ (by simp [hs])
  refine (ht.queue _).put (x := h.granted) ?_ ?_ ?_
  · simpa [LockHolder.granted, LockHolder.slots] using ht.used h hmem
  · intro y hy hname s₁ hs₁ s' hs'
    rcases List.mem_append.1 hs₁ with hs₁ | hs₁
    · exact ht.apart_of_name_ne hmem hy hname s₁ hs₁ s' hs'
    · obtain rfl : s₁ = s := by simpa [hs, eq_comm] using hs₁
      intro hkey
      have hheld := (ht.isHeld_iff hmem hmem_slots).2 ⟨y, hy, s', hs', hkey.symm⟩
      rw [hfree] at hheld
      cases hheld
  · simpa [LockHolder.granted, LockHolder.slots] using ht.ascending h hmem

theorem cancel (ht : t.Sound) (hmem : h ∈ t.holders) : (t.cancel h).Sound := by
  have hslots : ({ h with awaited := none, ahead := [] } : LockHolder ν).slots = h.held :=
    List.append_nil _
  refine (ht.queue _).put ?_ (fun y hy hname => ht.apart_of_name_ne (h := h) hmem hy hname) ?_
  · rw [hslots]
    exact fun s hs => ht.used h hmem s (List.mem_append_left _ hs)
  · rw [hslots]
    refine (ht.ascending h hmem).sublist ?_
    rw [List.append_nil]
    exact ((List.sublist_append_left _ _).map _).trans (List.sublist_append_left _ _)

theorem leave (ht : t.Sound) (name : ν) : (t.leave name).Sound where
  names := (List.filter_sublist.map _).nodup ht.names
  keys := ht.keys
  mutexes := ht.mutexes
  made := ht.made
  used h hmem := ht.used h (List.mem_filter.1 hmem).1
  apart := ht.apart.sublist List.filter_sublist
  ascending h hmem := ht.ascending h (List.mem_filter.1 hmem).1

/-- Every step keeps a table sound. -/
theorem step (ht : t.Sound) (hs : t.Step t') : t'.Sound := by
  cases hs with
  | enter name keys fresh => exact ht.enter fresh keys
  | lookUp h present idle => exact ht.lookUp present idle
  | lineUp => exact ht.queue _
  | grant h s present awaits free => exact ht.grant present awaits free
  | cancel h present => exact ht.cancel present
  | leave name => exact ht.leave name

theorem reaches (ht : t.Sound) (hr : ReflTransGen Step t t') : t'.Sound := by
  induction hr with
  | refl => exact ht
  | tail _ hs ih => exact ih.step hs

omit [DecidableEq ν] in
/-- What is held or waited for is what the table has for its key. -/
theorem find?_slots (ht : t.Sound) (hmem : h ∈ t.holders) (hs : s ∈ h.slots) :
    t.slots.find? (fun s' => s'.key = s.key) = some s := by
  have hslot := ht.used h hmem s hs
  obtain ⟨s', hfind⟩ : ∃ s', t.slots.find? (fun s' => s'.key = s.key) = some s' := by
    rw [← Option.isSome_iff_exists, List.find?_isSome]
    exact ⟨s, hslot, by simp⟩
  rw [hfind, ht.eq_of_key_eq (List.mem_of_find?_eq_some hfind) hslot
    (by simpa using List.find?_some hfind)]

end Sound

/-- A new caller that looks up a key which another one holds or waits for finds the same slot, also
when its look-up prunes the table: then all slots go that nobody holds or waits for. -/
theorem finds_slot_in_use {name : ν} (ht : ReflTransGen Step {} t)
    (hfresh : ∀ h ∈ t.holders, h.name ≠ name) (hmem : h ∈ t.holders) (hs : s ∈ h.slots) :
    ReflTransGen Step {} ((t.enter name [s.key]).lookUp ⟨name, [], none, [s.key]⟩) ∧
    ⟨name, [], some s, []⟩ ∈ ((t.enter name [s.key]).lookUp ⟨name, [], none, [s.key]⟩).holders ∧
    (slotLimit < t.slots.length →
      ∀ s' ∈ ((t.enter name [s.key]).lookUp ⟨name, [], none, [s.key]⟩).slots,
        ∃ h' ∈ t.holders, s' ∈ h'.slots) := by
  have hsound := Sound.empty.reaches ht
  have hfound := hsound.slot_eq hmem hs
  refine ⟨(ht.tail (.enter name _ hfresh)).tail (.lookUp _ (mem_enter ..) rfl), ?_, ?_⟩
  · rw [lookUp_enter, hfound]
    exact mem_put.2 (.inr ⟨rfl, _, mem_enter .., rfl⟩)
  · intro hcrowded s' hs'
    rw [lookUp_enter] at hs'
    rcases hsound.eq_slot_or_used hcrowded hs' with rfl | hused
    · exact ⟨h, hmem, hfound.symm ▸ hs⟩
    · exact hused

/-- However callers acquire keys, wait, give up and release: no two callers hold a key in common,
and a key that a caller holds or waits for has the very mutex in the table that the caller uses. -/
theorem exclusive (ht : ReflTransGen Step ({} : LockTable ν) t) :
    t.holders.Pairwise LockHolder.Apart ∧
    ∀ h ∈ t.holders, ∀ s ∈ h.held ++ h.awaited.toList,
      t.slots.find? (fun s' => s'.key = s.key) = some s := by
  have hsound := Sound.empty.reaches ht
  exact ⟨hsound.apart, fun h hmem s hs => hsound.find?_slots hmem hs⟩

/-- A caller has left its key to the one who waited for it, and a third one waits for that one. When
others have filled the table past its limit, a fourth one looks up the same key: all slots but that
of the key are dropped, and it is to wait for the mutex of the others. -/
theorem exclusive_after_release :
    let t := (((({} : LockTable Nat).acquire 1 [.user 7, .order 3]).acquire 2 [.user 7]).release
      1).acquire 3 [.user 8, .user 7]
    let full := t.visited ((List.range 1023).map fun i => .user (i + 8))
    let t' := (full.enter 4 [.user 7]).lookUp ⟨4, [], none, [.user 7]⟩
    (t.holding = [2] ∧ t.waiting = [3]) ∧ slotLimit < full.slots.length ∧
    (∀ s ∈ t'.slots, s = ⟨.user 7, 1⟩) ∧ ⟨4, [], some ⟨.user 7, 1⟩, []⟩ ∈ t'.holders ∧
    ∀ u ∈ [t, t'], ReflTransGen Step {} u ∧ u.holders.Pairwise LockHolder.Apart ∧
      ∀ h ∈ u.holders, ∀ s ∈ h.held ++ h.awaited.toList,
        u.slots.find? (fun s' => s'.key = s.key) = some s := by
  intro t full t'
  have hslots : t.slots = [⟨.user 7, 1⟩, ⟨.order 3, 0⟩] := by decide
  have hnames : ∀ h ∈ t.holders, h.name ≠ 4 := by decide
  have hused : ∀ h ∈ t.holders, ∀ s ∈ h.slots, s = ⟨.user 7, 1⟩ := by decide
  have hmem : (⟨2, [⟨.user 7, 1⟩], none, []⟩ : LockHolder Nat) ∈ t.holders := by decide
  have hsteps : ReflTransGen Step {} t := by
    refine .trans ?_ (steps_acquire (by decide) _)
    refine .trans ?_ (steps_release _ 1)
    exact (steps_acquire (by simp) _).trans (steps_acquire (by decide) _)
  have hfull : ReflTransGen Step {} full := hsteps.trans (steps_visited hnames (by decide) _)
  have hholders : full.holders = t.holders := holders_visited t _
  have hlength : full.slots.length = 1025 := by
    refine (length_slots_visited (List.nodup_range.map fun i j h => ?_) ?_ ?_).trans ?_
    · simpa using h
    · simp [hslots]
    · simp [hslots, slotLimit]
    · simp [hslots]
  have hcrowded : slotLimit < full.slots.length := hlength ▸ Nat.lt_succ_self 1024
  obtain ⟨hsteps', hwaits, hpruned⟩ := finds_slot_in_use (s := ⟨.user 7, 1⟩) hfull
    (by rw [hholders]; exact hnames) (by rw [hholders]; exact hmem) List.mem_cons_self
  refine ⟨⟨by decide, by decide⟩, hcrowded, fun s hs => ?_, hwaits, ?_⟩
  · obtain ⟨h, hh, hs⟩ := hpruned hcrowded s hs
    rw [hholders] at hh
    exact hused h hh s hs
  · rw [List.forall_mem_cons, List.forall_mem_singleton]
    exact ⟨⟨hsteps, exclusive hsteps⟩, hsteps', exclusive hsteps'⟩

end LockTable

end Paybook
