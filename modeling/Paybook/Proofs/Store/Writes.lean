import Mathlib.Data.List.Nodup
import Paybook.Proofs.Entry.Origin
import Paybook.Service.Payment

/-! # What may be written into a store

The calls of the book insert entries and bring pending ones to their end. `Store.Writes` says once
under which conditions they do either. What the conditions rest on are the entries under the keys
of the written entry, which are those that its locks protect. A store only grows by writes, and the
entries under other keys stay as they are. -/

namespace Paybook

open Time

/-! ## Keys -/

/-- The keys of the entry that a draft becomes. -/
def Draft.keys (d : Draft) : List LockKey := .user d.user :: d.order.toList.map .order

/-- The keys of an entry. -/
abbrev Entry.keys (e : Entry) : List LockKey := Payment.settlementKeys e

theorem Entry.keys_eq_of_origin {e e' : Entry} (h : e.origin = e'.origin) : e.keys = e'.keys := by
  rw [keys, keys, Payment.settlementKeys, Payment.settlementKeys, user_eq_of_origin h,
    order_eq_of_origin h]

theorem Entry.user_mem_keys (e : Entry) : .user e.user ∈ e.keys := List.mem_cons_self

theorem Entry.order_mem_keys {e : Entry} {o : Nat} (h : e.order = some o) : .order o ∈ e.keys := by
  simp [keys, Payment.settlementKeys, h]

/-- Whether a selection selects only entries under a key. -/
def Selection.Pins (sel : Selection) : LockKey → Prop
  | .user u => sel.user = some u
  | .order o => sel.order = some o

theorem Selection.Pins.mem_keys {sel : Selection} {k : LockKey} (h : sel.Pins k) {e : Entry}
    (he : sel.selects e = true) : k ∈ e.keys := by
  obtain ⟨hu, ho, -⟩ := selects_iff.1 he
  cases k with
  | user u => exact hu u h ▸ e.user_mem_keys
  | order o => exact Entry.order_mem_keys (ho o h)

theorem Selection.not_selects_of_status {sel : Selection} {st : Status} (h : sel.status = some st)
    {e : Entry} (he : e.status ≠ st) : sel.selects e = false := by
  rw [Bool.eq_false_iff]
  exact fun hs => he ((selects_iff.1 hs).2.2.1 st h)

namespace Store

variable {s s' s'' : Store} {e e' old : Entry} {k : LockKey}

/-- The entries under a key. -/
def under (s : Store) (k : LockKey) : List Entry := s.entries.filter fun e => k ∈ e.keys

theorem mem_under : e ∈ s.under k ↔ e ∈ s.entries ∧ k ∈ e.keys := by
  simp [under]

theorem query_eq_filter_under (s : Store) {sel : Selection} (hp : sel.Pins k) :
    s.query sel = (s.under k).filter sel.selects := by
  rw [query, under, List.filter_filter]
  refine List.filter_congr ?_
  intro e _
  cases he : sel.selects e with
  | false => simp
  | true => simp [hp.mem_keys he]

/-- What is selected under a key depends on the entries under it alone. -/
theorem query_eq_of_under (h : s'.under k = s.under k) {sel : Selection} (hp : sel.Pins k) :
    s'.query sel = s.query sel := by
  rw [query_eq_filter_under s' hp, query_eq_filter_under s hp, h]

theorem get?_eq_of_under (h : s'.under k = s.under k) (hk : k ∈ e.keys) {id : Nat}
    (he : s.get? id = some e) : s'.get? id = some e := by
  rw [get?_eq_some] at *
  have hmem : e ∈ s'.under k := by rw [h]; exact mem_under.2 ⟨he.1, hk⟩
  exact ⟨(mem_under.1 hmem).1, he.2⟩

/-! ## Entries replaced -/

theorem entries_insert (s : Store) (d : Draft) (now : Instant) :
    (s.insert d now).entries = s.entries ++ [s.upcoming d now] := rfl

theorem nodup_entries (s : Store) : s.entries.Nodup :=
  List.Nodup.of_map Entry.id (s.ascending.imp fun h => Nat.ne_of_lt h)

theorem eq_of_id_eq (he : e ∈ s.entries) (he' : e' ∈ s.entries) (h : e.id = e'.id) : e = e' := by
  have h₁ := get?_eq_some.2 ⟨he, h⟩
  have h₂ := get?_eq_some.2 ⟨he', rfl⟩
  rw [h₁] at h₂
  exact Option.some.inj h₂

theorem mem_replaced {x : Entry} {es : List Entry} (h : x ∈ replaced e es) :
    (x ∈ es ∧ x.id ≠ e.id) ∨ x = e := by
  obtain ⟨y, hy, rfl⟩ := List.mem_map.1 h
  split
  · exact .inr rfl
  · next hne => exact .inl ⟨hy, hne⟩

theorem mem_replace_of_ne {x : Entry} (hx : x ∈ s.entries) (hne : x.id ≠ e.id) :
    x ∈ (s.replace e).entries :=
  List.mem_map.2 ⟨x, hx, if_neg hne⟩

/-- Replacing an entry changes nothing in a view that contains neither it nor its successor. -/
theorem filter_replace {p : Entry → Bool} (h : s.get? e.id = some old) (hold : p old = false)
    (he : p e = false) : (s.replace e).entries.filter p = s.entries.filter p := by
  have hall : ∀ x ∈ s.entries, x.id = e.id → p x = false := fun x hx hid => by
    rw [eq_of_id_eq hx (get?_eq_some.1 h).1 (hid.trans (get?_eq_some.1 h).2.symm), hold]
  change (replaced e s.entries).filter p = _
  generalize s.entries = es at hall
  induction es with
  | nil => rfl
  | cons x xs ih =>
    have ih := ih fun y hy => hall y (List.mem_cons_of_mem _ hy)
    change ((if x.id = e.id then e else x) :: replaced e xs).filter p = _
    split
    · next hx =>
      rw [List.filter_cons_of_neg (by simp [he]), ih,
        List.filter_cons_of_neg (by simp [hall x List.mem_cons_self hx])]
    · rw [List.filter_cons, List.filter_cons, ih]

theorem origins_replace (h : s.get? e.id = some old) (ho : e.origin = old.origin) :
    (s.replace e).entries.map Entry.origin = s.entries.map Entry.origin := by
  change (s.entries.map _).map _ = _
  rw [List.map_map]
  refine List.map_congr_left ?_
  intro x hx
  by_cases hid : x.id = e.id
  · have : x = old := eq_of_id_eq hx (get?_eq_some.1 h).1 (hid.trans (get?_eq_some.1 h).2.symm)
    rw [Function.comp, if_pos hid, ho, this]
  · rw [Function.comp, if_neg hid]

/-! ## Growth -/

/-- A store that has grown out of another one: its entries are made with the same and go on behind
the old ones, and final entries are unchanged. -/
structure Grows (s s' : Store) : Prop where
  origins : s.entries.map Entry.origin <+: s'.entries.map Entry.origin
  final : ∀ e ∈ s.entries, e.isFinal = true → e ∈ s'.entries

theorem Grows.refl (s : Store) : s.Grows s := ⟨List.prefix_refl _, fun _ he _ => he⟩

theorem Grows.trans (h : s.Grows s') (h' : s'.Grows s'') : s.Grows s'' :=
  ⟨h.origins.trans h'.origins, fun e he hf => h'.final e (h.final e he hf) hf⟩

/-- An entry stays under its identifier, made with the same. -/
theorem Grows.exists_get? (h : s.Grows s') {id : Nat} (he : s.get? id = some e) :
    ∃ e', s'.get? id = some e' ∧ e'.origin = e.origin := by
  rw [get?_eq_some] at he
  obtain ⟨e', he', ho⟩ := List.mem_map.1 (h.origins.subset (List.mem_map_of_mem he.1))
  exact ⟨e', get?_eq_some.2 ⟨he', (Entry.id_eq_of_origin ho).trans he.2⟩, ho⟩

theorem Grows.origin_eq (h : s.Grows s') {id : Nat} (he : s.get? id = some e)
    (he' : s'.get? id = some e') : e'.origin = e.origin := by
  obtain ⟨x, hx, ho⟩ := h.exists_get? he
  rw [he'] at hx
  exact Option.some.inj hx ▸ ho

/-! ## Conditions -/

/-- Whether the wallet of a user holds an amount. -/
def Covers (s : Store) (user : Nat) (a : Amount) : Prop :=
  ∃ b, Balance.ofEntries? (s.query (Wallet.holdings user)) = some b ∧ b.covers a = true

/-- Whether a refund gives a completed payment back, to the same user, in full, and by the same
method. -/
def Backs (s : Store) (r : Entry) : Prop :=
  ∃ p ∈ s.entries, p.kind = .payment ∧ p.status = .completed ∧ p.order = r.order ∧
    p.user = r.user ∧ p.amount = r.amount ∧ p.method = r.method

/-- Whether an entry may be completed: its order has no completed entry of its kind, and a
withdrawal is covered. -/
structure Admits (s : Store) (e : Entry) : Prop where
  first : e.kind ∈ EntryKind.ofOrder → ∀ o, e.order = some o →
    s.query (Payment.doneFor o e.kind) = []
  covered : e.kind = .withdrawal → s.Covers e.user e.amount

/-- Whether an entry follows a stored pending one: it is made with the same and based on its
version. -/
def Follows (s : Store) (e : Entry) : Prop :=
  ∃ old, s.get? e.id = some old ∧ old.status = .pending ∧ e.origin = old.origin ∧
    old.version = e.version

theorem Backs.mono (h : s.Backs e) (hg : s.Grows s') : s'.Backs e := by
  obtain ⟨p, hp, hk, hc, hrest⟩ := h
  exact ⟨p, hg.final p hp (Entry.isFinal_of_completed hc), hk, hc, hrest⟩

theorem Backs.of_origin (h : s.Backs e) (ho : e'.origin = e.origin) : s.Backs e' := by
  obtain ⟨p, hp, hk, hc, hor, hu, ha, hm⟩ := h
  exact ⟨p, hp, hk, hc, hor.trans (Entry.order_eq_of_origin ho).symm,
    hu.trans (Entry.user_eq_of_origin ho).symm, ha.trans (Entry.amount_eq_of_origin ho).symm,
    hm.trans (Entry.method_eq_of_origin ho).symm⟩

theorem Admits.of_origin (h : s.Admits e) (ho : e'.origin = e.origin) : s.Admits e' := by
  refine ⟨?_, ?_⟩
  · rw [Entry.kind_eq_of_origin ho, Entry.order_eq_of_origin ho]; exact h.first
  · rw [Entry.kind_eq_of_origin ho, Entry.user_eq_of_origin ho, Entry.amount_eq_of_origin ho]
    exact h.covered

/-- Whether an entry may be completed depends on the entries under its keys alone. -/
theorem Admits.of_queries (h : s.Admits e)
    (hq : ∀ sel : Selection, sel.status = some .completed → (∃ k ∈ e.keys, sel.Pins k) →
      s'.query sel = s.query sel) : s'.Admits e := by
  refine ⟨fun hk o ho => ?_, fun hk => ?_⟩
  · rw [hq (Payment.doneFor o e.kind) rfl ⟨.order o, Entry.order_mem_keys ho, rfl⟩]
    exact h.first hk o ho
  · rw [Covers, hq (Wallet.holdings e.user) rfl ⟨.user e.user, e.user_mem_keys, rfl⟩]
    exact h.covered hk

theorem Follows.of_under (h : s.Follows e) (hk : k ∈ e.keys) (hu : s'.under k = s.under k) :
    s'.Follows e := by
  obtain ⟨old, hold, hp, ho, hv⟩ := h
  rw [Entry.keys_eq_of_origin ho] at hk
  exact ⟨old, get?_eq_of_under hu hk hold, hp, ho, hv⟩

theorem Follows.of_origin (h : s.Follows e) (ho : e'.origin = e.origin)
    (hv : e'.version = e.version) : s.Follows e' := by
  obtain ⟨old, hold, hp, ho', hv'⟩ := h
  exact ⟨old, Entry.id_eq_of_origin ho ▸ hold, hp, ho.trans ho', hv'.trans hv.symm⟩

/-! ## Writes -/

/-- A write that a call may make: a new entry, if a refund with a payment behind it, or a pending
entry amended, if to completion as it may be. -/
inductive Writes (s : Store) : Store → Prop where
  | insert (d : Draft) (now : Instant)
      (backed : d.kind = .refund → s.Backs (s.upcoming d now)) : s.Writes (s.insert d now)
  | amend (e old : Entry) (stored : s.get? e.id = some old) (pending : old.status = .pending)
      (origin : e.origin = old.origin) (admitted : e.status = .completed → s.Admits e) :
      s.Writes (s.replace e)

/-- The write that an update makes. -/
theorem Follows.writes (h : s.Follows e) (ha : e.status = .completed → s.Admits e) :
    s.Writes (s.replace (bumped e)) := by
  obtain ⟨old, hold, hp, ho, -⟩ := h
  exact .amend _ old hold hp ho fun hc => (ha hc).of_origin rfl

/-- An update succeeds on what it follows. -/
theorem Follows.update (h : s.Follows e) : s.update e = .ok (bumped e, s.replace (bumped e)) := by
  obtain ⟨old, hold, -, -, hv⟩ := h
  exact update_eq_ok.2 ⟨⟨old, hold, hv⟩, rfl, rfl⟩

theorem Writes.grows (h : s.Writes s') : s.Grows s' := by
  cases h with
  | insert d now =>
    refine ⟨?_, fun e he _ => List.mem_append_left _ he⟩
    rw [entries_insert, List.map_append]
    exact List.prefix_append _ _
  | amend e old stored pending origin =>
    refine ⟨(origins_replace stored origin).symm ▸ List.prefix_refl _, fun x hx hf => ?_⟩
    refine mem_replace_of_ne hx ?_
    intro hid
    have : x = old := eq_of_id_eq hx (get?_eq_some.1 stored).1
      (hid.trans (get?_eq_some.1 stored).2.symm)
    rw [this, Entry.isFinal_eq_false.2 pending] at hf
    exact Bool.noConfusion hf

theorem under_insert {d : Draft} (hk : k ∉ d.keys) (now : Instant) :
    (s.insert d now).under k = s.under k := by
  have : k ∉ (s.upcoming d now).keys := hk
  simp [under, entries_insert, this]

theorem under_replace (stored : s.get? e.id = some old) (origin : e.origin = old.origin)
    (hk : k ∉ e.keys) : (s.replace e).under k = s.under k :=
  filter_replace stored (by simpa [Entry.keys_eq_of_origin origin] using hk) (by simpa using hk)

/-- An entry that is replaced keeps its keys, and its place in the views by them. -/
theorem under_replace_eq (stored : s.get? e.id = some old) (origin : e.origin = old.origin)
    (k : LockKey) : (s.replace e).under k = replaced e (s.under k) := by
  have hkeys : ∀ x ∈ s.entries, (if x.id = e.id then e else x).keys = x.keys := fun x hx => by
    split
    · next hid =>
      rw [eq_of_id_eq hx (get?_eq_some.1 stored).1 (hid.trans (get?_eq_some.1 stored).2.symm)]
      exact Entry.keys_eq_of_origin origin
    · rfl
  change (replaced e s.entries).filter _ = _
  rw [replaced, List.filter_map, under, replaced]
  congr 1
  exact List.filter_congr fun x hx => by rw [Function.comp, hkeys x hx]

/-- A new entry is pending and changes no selection of completed ones. -/
theorem query_insert_of_completed (sel : Selection) (h : sel.status = some .completed) (d : Draft)
    (now : Instant) : (s.insert d now).query sel = s.query sel := by
  have hnot : sel.selects (s.upcoming d now) = false :=
    sel.not_selects_of_status h (by simp [upcoming, Entry.ofDraft])
  simp [query_insert, hnot]

end Store

end Paybook
