import Mathlib.Logic.Function.Basic
import Paybook.Proofs.Entry.Changes
import Paybook.Proofs.Store.Writes

/-! # Clients that share a store

Clients without locks take copies of the entries of one store, change their copies, and give them to
the store to be updated, however old they are. A version is taken up by one update at most, and what
has come to its end stays as it is: `SharedStore.settled_for_good`. The store itself compares
versions only. It is the changes that leave an entry alone once it has come to its end, so that a
copy of the stored version of such an entry is that entry. -/

namespace Paybook

open Time

/-! ## Clients -/

/-- What a client does. It names its copies by their places among them. -/
inductive ClientMove where
  | insert (draft : Draft) (now : Instant)
  | get (id : Nat)
  | query (selection : Selection)
  /-- Changes a copy; the old one stays with the client, too. -/
  | change (place : Nat) (changes : List (Change × Instant))
  | update (place : Nat)

/-- A store, and the copies of its entries that each client has. -/
structure SharedStore (ι : Type) where
  store : Store
  copies : ι → List Entry

namespace SharedStore

variable {ι : Type} [DecidableEq ι]

/-- A store of which nobody has copies yet. -/
def opening (s : Store) : SharedStore ι := ⟨s, fun _ => []⟩

/-- Gives copies to a client. -/
def give (s : SharedStore ι) (i : ι) (es : List Entry) : SharedStore ι :=
  { s with copies := Function.update s.copies i (es ++ s.copies i) }

/-- The store with a copy of a client taken in, if it is based on the stored version. -/
def submit (s : SharedStore ι) (i : ι) (e : Entry) : SharedStore ι :=
  match s.store.update e with
  | .ok (stored, store) => give { s with store := store } i [stored]
  | .error _ => s

/-- What a move of a client makes of a store and of the copies. -/
def move (s : SharedStore ι) : ι × ClientMove → SharedStore ι
  | (i, .insert d now) => give { s with store := s.store.insert d now } i [s.store.upcoming d now]
  | (i, .get id) => s.give i (s.store.get? id).toList
  | (i, .query sel) => s.give i (s.store.query sel)
  | (i, .change place cs) => s.give i ((s.copies i)[place]?.map (Change.applyAll cs)).toList
  | (i, .update place) => (s.copies i)[place]?.elim s (s.submit i)

/-- The entry and the version of it that an update is based on, if the move is one that succeeds. -/
def base? (s : SharedStore ι) : ι × ClientMove → Option (Nat × Nat)
  | (i, .update place) =>
    ((s.copies i)[place]?.filter fun e => (s.store.update e).isOk).map fun e => (e.id, e.version)
  | _ => none

/-- What some moves make of a store and of the copies. The moves of the clients may come in any
order. -/
def after (s : SharedStore ι) (ms : List (ι × ClientMove)) : SharedStore ι := ms.foldl move s

/-- What the updates that succeed among some moves are based on. -/
def bases : SharedStore ι → List (ι × ClientMove) → List (Nat × Nat)
  | _, [] => []
  | s, m :: ms => (s.base? m).toList ++ (s.move m).bases ms

/-- A move gives copies of stored or of changed entries to a client, inserts an entry, or updates
one with a copy that is based on its version. -/
theorem move_cases (s : SharedStore ι) (m : ι × ClientMove) :
    (s.base? m = none ∧ ∃ i es, s.move m = s.give i es ∧ ∀ e ∈ es,
      e ∈ s.store.entries ∨ ∃ x ∈ s.copies i, ∃ cs, e = Change.applyAll cs x) ∨
    (s.base? m = none ∧ ∃ i d now, s.move m =
      give { s with store := s.store.insert d now } i [s.store.upcoming d now]) ∨
    ∃ i, ∃ e ∈ s.copies i, ∃ old, s.base? m = some (e.id, e.version) ∧
      s.store.get? e.id = some old ∧ old.version = e.version ∧
      s.move m = give { s with store := s.store.replace (Store.bumped e) } i [Store.bumped e] := by
  have hstill : ∀ i, s = s.give i [] := fun i => by simp [give]
  obtain ⟨i, m⟩ := m
  cases m with
  | insert d now => exact .inr (.inl ⟨rfl, i, d, now, rfl⟩)
  | get id =>
    refine .inl ⟨rfl, i, _, rfl, fun e he => .inl ?_⟩
    exact (Store.get?_eq_some.1 (Option.mem_toList.1 he)).1
  | query sel => exact .inl ⟨rfl, i, _, rfl, fun e he => .inl (Store.mem_query.1 he).1⟩
  | change place cs =>
    refine .inl ⟨rfl, i, _, rfl, fun e he => .inr ?_⟩
    obtain ⟨x, hx, rfl⟩ := Option.map_eq_some_iff.1 (Option.mem_toList.1 he)
    exact ⟨x, List.mem_of_getElem? hx, cs, rfl⟩
  | update place =>
    cases hplace : (s.copies i)[place]? with
    | none =>
      have hbase : s.base? (i, .update place) = none := by simp only [base?, hplace]; rfl
      have hmove : s.move (i, .update place) = s := by simp only [move, hplace]; rfl
      exact .inl ⟨hbase, i, [], hmove.trans (hstill i), fun e he => absurd he List.not_mem_nil⟩
    | some e =>
      cases hupdate : s.store.update e with
      | error f =>
        have hbase : s.base? (i, .update place) = none := by
          simp [base?, hplace, hupdate, Except.isOk, Except.toBool]
        have hmove : s.move (i, .update place) = s := by
          simp only [move, hplace, Option.elim_some, submit, hupdate]
        exact .inl ⟨hbase, i, [], hmove.trans (hstill i), fun e he => absurd he List.not_mem_nil⟩
      | ok result =>
        obtain ⟨stored, store⟩ := result
        have hbase : s.base? (i, .update place) = some (e.id, e.version) := by
          simp [base?, hplace, hupdate, Except.isOk, Except.toBool]
        have hmove : s.move (i, .update place) = give { s with store := store } i [stored] := by
          simp only [move, hplace, Option.elim_some, submit, hupdate]
        obtain ⟨⟨old, hold, hversion⟩, rfl, rfl⟩ := Store.update_eq_ok.1 hupdate
        exact .inr (.inr
          ⟨i, e, List.mem_of_getElem? hplace, old, hbase, hold, hversion, hmove⟩)

end SharedStore

/-! ## Entries and their copies -/

/-- What may become of a stored entry: it is made with the same, its version does not fall, and it
is the same entry while it has the same version. Once it has come to its end, nothing but its
version changes. -/
structure Entry.Becomes (e e' : Entry) : Prop where
  origin : e'.origin = e.origin
  version_le : e.version ≤ e'.version
  same : e'.version = e.version → e' = e
  final : e.isFinal = true → e' = { e with version := e'.version }

/-- Whether an entry may be a client's copy of a stored one: it is made with the same and not of a
later version, and if it is of the same version and the stored one has come to its end, it is that
one. -/
structure Entry.CopyOf (e stored : Entry) : Prop where
  origin : e.origin = stored.origin
  version_le : e.version ≤ stored.version
  current : e.version = stored.version → stored.isFinal = true → e = stored

namespace Entry

variable {e e' e'' stored : Entry}

theorem Becomes.refl (e : Entry) : e.Becomes e := ⟨rfl, Nat.le_refl _, fun _ => rfl, fun _ => rfl⟩

theorem Becomes.trans (h : e.Becomes e') (h' : e'.Becomes e'') : e.Becomes e'' where
  origin := h'.origin.trans h.origin
  version_le := Nat.le_trans h.version_le h'.version_le
  same hv := by
    have := h.version_le
    have := h'.version_le
    rw [h'.same (by omega), h.same (by omega)]
  final hf := by
    have he' := h.final hf
    have hf' : e'.isFinal = true := by rw [he']; exact hf
    rw [h'.final hf', he']

theorem CopyOf.refl (e : Entry) : e.CopyOf e := ⟨rfl, Nat.le_refl _, fun _ _ => rfl⟩

theorem CopyOf.applyAll (h : e.CopyOf stored) (cs : List (Change × Instant)) :
    (Change.applyAll cs e).CopyOf stored where
  origin := (Change.origin_applyAll cs e).trans h.origin
  version_le := by rw [Change.version_applyAll]; exact h.version_le
  current hv hf := by
    rw [Change.version_applyAll] at hv
    obtain rfl := h.current hv hf
    exact Change.applyAll_of_final hf

/-- A copy stays a copy, whatever becomes of the stored entry. -/
theorem CopyOf.of_becomes (h : e.CopyOf stored) (hb : stored.Becomes e') : e.CopyOf e' where
  origin := h.origin.trans hb.origin.symm
  version_le := Nat.le_trans h.version_le hb.version_le
  current hv hf := by
    have := h.version_le
    have := hb.version_le
    obtain rfl := hb.same (by omega)
    exact h.current hv hf

/-- What an update with a copy of its version makes of a stored entry. -/
theorem CopyOf.becomes_bumped (h : e.CopyOf stored) (hv : stored.version = e.version) :
    stored.Becomes (Store.bumped e) where
  origin := h.origin
  version_le := hv ▸ Nat.le_succ _
  same hsame := absurd hsame (by rw [hv]; exact Nat.succ_ne_self _)
  final hf := by rw [h.current hv.symm hf]; rfl

end Entry

/-- Whether the entries of a store are in another one, which they may have become. -/
def Store.Becomes (s s' : Store) : Prop :=
  ∀ id e, s.get? id = some e → ∃ e', s'.get? id = some e' ∧ e.Becomes e'

theorem Store.Becomes.refl (s : Store) : s.Becomes s := fun _ e he => ⟨e, he, .refl e⟩

theorem Store.Becomes.trans {s s' s'' : Store} (h : s.Becomes s') (h' : s'.Becomes s'') :
    s.Becomes s'' := by
  intro id e he
  obtain ⟨e', he', hb⟩ := h id e he
  obtain ⟨e'', he'', hb'⟩ := h' id e' he'
  exact ⟨e'', he'', hb.trans hb'⟩

theorem Store.becomes_insert (s : Store) (d : Draft) (now : Instant) :
    s.Becomes (s.insert d now) := by
  intro id e he
  refine ⟨e, ?_, .refl e⟩
  obtain ⟨hmem, rfl⟩ := get?_eq_some.1 he
  have := s.id_le e hmem
  rw [get?_insert, if_neg (by omega), he]

theorem Store.becomes_replace {s : Store} {e old : Entry} (hold : s.get? e.id = some old)
    (hb : old.Becomes e) : s.Becomes (s.replace e) := by
  intro id x hx
  rw [get?_replace]
  split
  · next hid =>
    subst hid
    rw [hold] at hx
    cases hx
    exact ⟨e, by rw [hold]; rfl, hb⟩
  · exact ⟨x, hx, .refl x⟩

/-! ## What one move keeps -/

namespace SharedStore

variable {ι : Type} [DecidableEq ι] {s : SharedStore ι} {m : ι × ClientMove}
variable {ms : List (ι × ClientMove)}

/-- Whether all that clients have are copies of what is stored. -/
def Sound (s : SharedStore ι) : Prop :=
  ∀ i, ∀ e ∈ s.copies i, ∃ stored, s.store.get? e.id = some stored ∧ e.CopyOf stored

omit [DecidableEq ι] in
theorem sound_opening (s : Store) : (opening s : SharedStore ι).Sound := fun _ _ h => by cases h

/-- Clients may be given copies of what has become of a store. -/
theorem Sound.give (h : s.Sound) {store : Store} (hb : s.store.Becomes store) {i : ι}
    {es : List Entry} (hes : ∀ e ∈ es, ∃ stored, store.get? e.id = some stored ∧ e.CopyOf stored) :
    (give { s with store := store } i es).Sound := by
  have hold : ∀ j, ∀ e ∈ s.copies j, ∃ stored, store.get? e.id = some stored ∧ e.CopyOf stored := by
    intro j e he
    obtain ⟨stored, hget, hcopy⟩ := h j e he
    obtain ⟨stored', hget', hbecomes⟩ := hb e.id stored hget
    exact ⟨stored', hget', hcopy.of_becomes hbecomes⟩
  intro j e he
  simp only [SharedStore.give, Function.update_apply] at he
  split at he
  · next hj =>
    subst hj
    exact (List.mem_append.1 he).elim (hes e) (hold j e)
  · exact hold j e he

/-- A move keeps copies copies, and the store becomes what it may. -/
theorem Sound.move (h : s.Sound) (m : ι × ClientMove) :
    (s.move m).Sound ∧ s.store.Becomes (s.move m).store := by
  rcases s.move_cases m with ⟨-, i, es, hm, hes⟩ | ⟨-, i, d, now, hm⟩ |
    ⟨i, e, he, old, -, hold, hversion, hm⟩
  · rw [hm]
    refine ⟨h.give (.refl _) fun e he => ?_, .refl _⟩
    rcases hes e he with hmem | ⟨x, hx, cs, rfl⟩
    · exact ⟨e, Store.get?_eq_some.2 ⟨hmem, rfl⟩, .refl e⟩
    · obtain ⟨stored, hget, hcopy⟩ := h i x hx
      rw [Entry.id_eq_of_origin (Change.origin_applyAll cs x)]
      exact ⟨stored, hget, hcopy.applyAll cs⟩
  · have hb := s.store.becomes_insert d now
    rw [hm]
    refine ⟨h.give hb ?_, hb⟩
    simp only [List.mem_singleton, forall_eq]
    exact ⟨_, (s.store.get?_insert d now _).trans (if_pos rfl), .refl _⟩
  · obtain ⟨stored, hstored, hcopy⟩ := h i e he
    obtain rfl : stored = old := Option.some.inj (hstored.symm.trans hold)
    have hb := Store.becomes_replace (e := Store.bumped e) hold (hcopy.becomes_bumped hversion)
    rw [hm]
    refine ⟨h.give hb ?_, hb⟩
    simp only [List.mem_singleton, forall_eq]
    refine ⟨_, ?_, .refl _⟩
    rw [Store.get?_replace, if_pos rfl, Entry.id_bumped, hold]
    rfl

/-- An update that succeeds is based on the stored version and raises it by one. -/
theorem version_of_base? {id version : Nat} (h : s.base? m = some (id, version)) :
    ∃ e e', s.store.get? id = some e ∧ e.version = version ∧
      (s.move m).store.get? id = some e' ∧ e'.version = version + 1 := by
  rcases s.move_cases m with ⟨hnone, -⟩ | ⟨hnone, -⟩ | ⟨i, e, -, old, hbase, hold, hversion, hm⟩
  · rw [h] at hnone
    cases hnone
  · rw [h] at hnone
    cases hnone
  · rw [h] at hbase
    cases hbase
    refine ⟨old, Store.bumped e, hold, hversion, ?_, rfl⟩
    rw [hm]
    change (s.store.replace _).get? e.id = _
    rw [Store.get?_replace, Entry.id_bumped, if_pos rfl, hold]
    rfl

/-! ## What all moves keep -/

theorem Sound.after (h : s.Sound) (ms : List (ι × ClientMove)) :
    (s.after ms).Sound ∧ s.store.Becomes (s.after ms).store := by
  induction ms generalizing s with
  | nil => exact ⟨h, .refl _⟩
  | cons m ms ih =>
    obtain ⟨hsound, hfirst⟩ := h.move m
    obtain ⟨hsound', hrest⟩ := ih hsound
    exact ⟨hsound', hfirst.trans hrest⟩

/-- No update is based on a version before the stored one. -/
theorem Sound.version_le_of_mem_bases (h : s.Sound) {id version : Nat}
    (hmem : (id, version) ∈ s.bases ms) {e : Entry} (he : s.store.get? id = some e) :
    e.version ≤ version := by
  induction ms generalizing s e with
  | nil => cases hmem
  | cons m ms ih =>
    obtain ⟨hsound, hb⟩ := h.move m
    rcases List.mem_append.1 hmem with hmem | hmem
    · obtain ⟨x, -, hx, hversion, -⟩ := version_of_base? (Option.mem_toList.1 hmem)
      rw [he] at hx
      cases hx
      exact Nat.le_of_eq hversion
    · obtain ⟨e', he', hbecomes⟩ := hb id e he
      exact Nat.le_trans hbecomes.version_le (ih hsound hmem he')

theorem Sound.nodup_bases (h : s.Sound) (ms : List (ι × ClientMove)) : (s.bases ms).Nodup := by
  induction ms generalizing s with
  | nil => exact List.nodup_nil
  | cons m ms ih =>
    obtain ⟨hsound, -⟩ := h.move m
    rw [bases]
    cases hbase : s.base? m with
    | none => exact ih hsound
    | some base =>
      obtain ⟨id, version⟩ := base
      refine List.nodup_cons.2 ⟨fun hmem => ?_, ih hsound⟩
      -- The version has been raised by the first update, so the second one cannot be based on it.
      obtain ⟨-, e', -, -, he', hversion⟩ := version_of_base? hbase
      have := hsound.version_le_of_mem_bases hmem he'
      omega

/-- Whatever clients without locks do with a store and with copies of its entries, and in whatever
order, no two updates of the same version of an entry succeed, and one that succeeds raises the
version by one. What entries are made with never changes, and nothing but its version changes of an
entry that has come to its end. -/
theorem settled_for_good (store : Store) (ms : List (ι × ClientMove)) :
    let s : SharedStore ι := (opening store).after ms
    ((opening store : SharedStore ι).bases ms).Nodup ∧
    (∀ m id version, s.base? m = some (id, version) → ∃ e e', s.store.get? id = some e ∧
      e.version = version ∧ (s.move m).store.get? id = some e' ∧ e'.version = version + 1) ∧
    ∀ ms', s.store.Becomes (s.after ms').store := by
  have hs := sound_opening (ι := ι) store
  exact ⟨hs.nodup_bases ms, fun _ _ _ => version_of_base?, fun ms' => ((hs.after ms).1.after ms').2⟩

end SharedStore

end Paybook
