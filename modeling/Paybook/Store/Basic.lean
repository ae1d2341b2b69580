import Paybook.Entry.Selection

/-! # The store of entries

The store holds the entries of the book by ascending identifiers and gives each new entry the
identifier after the last one it gave. An update names the version that it is based on and fails
when the stored entry has moved on. -/

namespace Paybook

open Time

/-- The entries of the book. -/
structure Store where
  entries : List Entry := []
  /-- The identifier that was given last. -/
  lastId : Nat := 0
  ascending : (entries.map Entry.id).Pairwise (· < ·) := by decide
  id_le : ∀ e ∈ entries, e.id ≤ lastId := by decide
deriving DecidableEq, Repr

namespace Store

def empty : Store := {}

instance : Inhabited Store := ⟨empty⟩

/-- The entry with an identifier. -/
def get? (s : Store) (id : Nat) : Option Entry := s.entries.find? fun e => e.id == id

/-- The entries that a selection selects, by ascending identifiers. -/
def query (s : Store) (sel : Selection) : List Entry := s.entries.filter sel.selects

/-- The first entry with a reference. -/
def findReference? (s : Store) (reference : String) : Option Entry :=
  s.entries.find? fun e => e.reference == some reference

/-- Whether there is an entry with an identifier. -/
def contains (s : Store) (id : Nat) : Bool := (s.get? id).isSome

/-- The entry that a draft becomes when it is inserted next. -/
def upcoming (s : Store) (draft : Draft) (now : Instant) : Entry :=
  .ofDraft (s.lastId + 1) draft now

/-- The store with the entry of a draft behind the others. -/
def insert (s : Store) (draft : Draft) (now : Instant) : Store where
  entries := s.entries ++ [s.upcoming draft now]
  lastId := s.lastId + 1
  ascending := by
    rw [List.map_append, List.pairwise_append]
    refine ⟨s.ascending, by simp, ?_⟩
    intro i hi j hj
    obtain ⟨e, he, rfl⟩ := List.mem_map.1 hi
    have hj : j = s.lastId + 1 := by simpa [upcoming, Entry.ofDraft] using hj
    have := s.id_le e he
    omega
  id_le := by
    intro e he
    rcases List.mem_append.1 he with he | he
    · exact Nat.le_succ_of_le (s.id_le e he)
    · rw [List.mem_singleton.1 he]; exact Nat.le_refl _

/-- The entries with the one of this identifier replaced. -/
def replaced (e : Entry) (es : List Entry) : List Entry :=
  es.map fun old => if old.id = e.id then e else old

theorem ids_replaced (e : Entry) (es : List Entry) :
    (replaced e es).map Entry.id = es.map Entry.id := by
  simp only [replaced, List.map_map]
  refine List.map_congr_left fun old _ => ?_
  simp only [Function.comp]
  split
  · next h => exact h.symm
  · rfl

/-- The store with the entry of this identifier replaced. -/
def replace (s : Store) (e : Entry) : Store where
  entries := replaced e s.entries
  lastId := s.lastId
  ascending := by rw [ids_replaced]; exact s.ascending
  id_le := by
    intro e' he'
    have : e'.id ∈ (replaced e s.entries).map Entry.id := List.mem_map_of_mem he'
    rw [ids_replaced] at this
    obtain ⟨old, hold, h⟩ := List.mem_map.1 this
    exact h ▸ s.id_le old hold

/-- The stored form of an update. -/
def bumped (e : Entry) : Entry := { e with version := e.version + 1 }

/-- Replaces a stored entry by one that is based on its version. -/
def update (s : Store) (e : Entry) : Attempt (Entry × Store) :=
  match s.get? e.id with
  | none => .error (.notFound s!"Transaction {e.id} not found")
  | some stored =>
    if stored.version = e.version then .ok (bumped e, s.replace (bumped e))
    else
      .error (.conflict (s!"Transaction {e.id} was modified concurrently " ++
        s!"(expected version {e.version}, found {stored.version})"))

/-- The store without the entry of an identifier, which is not given again. -/
def delete (s : Store) (id : Nat) : Store where
  entries := s.entries.filter fun e => e.id ≠ id
  lastId := s.lastId
  ascending := List.Pairwise.sublist (List.filter_sublist.map _) s.ascending
  id_le := fun e he => s.id_le e (List.mem_filter.1 he).1

/-- The store without any entry. -/
def clear (s : Store) : Store where
  entries := []
  lastId := s.lastId
  ascending := List.Pairwise.nil
  id_le := by intro e he; cases he

/-! ## What is found -/

theorem get?_eq_some {s : Store} {id : Nat} {e : Entry} :
    s.get? id = some e ↔ e ∈ s.entries ∧ e.id = id := by
  have h := s.ascending
  unfold get?
  generalize s.entries = es at h
  induction es with
  | nil => simp
  | cons x xs ih =>
    rw [List.map_cons, List.pairwise_cons] at h
    rw [List.find?_cons]
    split
    · next hx =>
      have hx : x.id = id := by simpa using hx
      constructor
      · rintro ⟨⟩
        exact ⟨List.mem_cons_self, hx⟩
      · rintro ⟨he, rfl⟩
        rcases List.mem_cons.1 he with rfl | he
        · rfl
        · have := h.1 _ (List.mem_map_of_mem he)
          omega
    · next hx =>
      refine (ih h.2).trans ⟨?_, ?_⟩
      · rintro ⟨he, hid⟩
        exact ⟨List.mem_cons_of_mem _ he, hid⟩
      · rintro ⟨he, hid⟩
        rcases List.mem_cons.1 he with rfl | he
        · simp [hid] at hx
        · exact ⟨he, hid⟩

theorem get?_insert (s : Store) (draft : Draft) (now : Instant) (id : Nat) :
    (s.insert draft now).get? id =
      if id = s.lastId + 1 then some (s.upcoming draft now) else s.get? id := by
  simp only [get?, insert, List.find?_append]
  split
  · next h =>
    subst h
    have : s.entries.find? (fun e => e.id == s.lastId + 1) = none := by
      rw [List.find?_eq_none]
      intro e he hid
      have := s.id_le e he
      have : e.id = s.lastId + 1 := by simpa using hid
      omega
    rw [this]
    simp [upcoming, Entry.ofDraft]
  · next h =>
    have : [s.upcoming draft now].find? (fun e => e.id == id) = none := by
      simp [upcoming, Entry.ofDraft, Ne.symm h]
    rw [this, Option.or_none]

theorem get?_replace (s : Store) (e : Entry) (id : Nat) :
    (s.replace e).get? id = if id = e.id then (s.get? id).map fun _ => e else s.get? id := by
  simp only [get?, replace, replaced]
  induction s.entries with
  | nil => simp
  | cons x xs ih =>
    rw [List.map_cons, List.find?_cons, List.find?_cons]
    by_cases hx : x.id = e.id
    · by_cases hid : id = e.id
      · simp [hx, hid]
      · have hne : (e.id == id) = false := beq_false_of_ne (Ne.symm hid)
        simpa [hx, hid, hne] using ih
    · by_cases hid : x.id = id
      · have : id ≠ e.id := hid ▸ hx
        simp [hid, this]
      · have hne : (x.id == id) = false := beq_false_of_ne hid
        simpa [hx, hne] using ih

theorem get?_delete (s : Store) (id i : Nat) :
    (s.delete id).get? i = if i = id then none else s.get? i := by
  simp only [get?, delete, List.find?_filter]
  split
  · next h =>
    rw [List.find?_eq_none]
    simp [h]
  · next h =>
    congr 1
    funext e
    by_cases he : e.id = i
    · have : e.id ≠ id := he ▸ h
      simp [he, h]
    · simp [beq_false_of_ne he]

@[simp] theorem get?_clear (s : Store) (id : Nat) : s.clear.get? id = none := rfl

theorem mem_query {s : Store} {sel : Selection} {e : Entry} :
    e ∈ s.query sel ↔ e ∈ s.entries ∧ sel.selects e = true := List.mem_filter

theorem query_insert (s : Store) (draft : Draft) (now : Instant) (sel : Selection) :
    (s.insert draft now).query sel = s.query sel ++
      (if sel.selects (s.upcoming draft now) then [s.upcoming draft now] else []) := by
  simp only [query, insert, List.filter_append, List.filter_cons, List.filter_nil]

/-- An update succeeds exactly on a stored entry of the version it is based on. -/
theorem update_eq_ok {s s' : Store} {e e' : Entry} :
    s.update e = .ok (e', s') ↔
      (∃ old, s.get? e.id = some old ∧ old.version = e.version) ∧
        e' = bumped e ∧ s' = s.replace (bumped e) := by
  unfold update
  split
  · next h => simp [h]
  · next stored h =>
    split
    · next hv =>
      simp only [Except.ok.injEq, Prod.mk.injEq, h, Option.some.injEq]
      constructor
      · rintro ⟨rfl, rfl⟩
        exact ⟨⟨stored, rfl, hv⟩, rfl, rfl⟩
      · rintro ⟨_, rfl, rfl⟩
        exact ⟨rfl, rfl⟩
    · next hv =>
      constructor
      · intro he
        cases he
      · rintro ⟨⟨old, hold, hv'⟩, _⟩
        rw [h] at hold
        cases hold
        exact absurd hv' hv

end Store

end Paybook
