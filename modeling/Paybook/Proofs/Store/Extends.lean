import Paybook.Proofs.Store.Worth

/-! # Entries behind the others

Whatever a call books stands behind the entries that were there before and is brought to its end
there. `Store.Extends` names the entries that have come behind a store, as they are at the moment,
and `Entry.Made` says what has become of the draft of one of them. -/

namespace Paybook

open Time

/-- Whether an entry has come out of a draft and has this status and this reference. If the status
is final, it has been so from the time on at which the entry was made. -/
structure Entry.Made (e : Entry) (d : Draft) (now : Instant) (status : Status)
    (reference : Option String) : Prop where
  origin : e.origin = (Entry.ofDraft e.id d now).origin
  status_eq : e.status = status
  reference_eq : e.reference = reference
  processedAt_eq : e.processedAt = if status.isFinal then some now else none

namespace Entry.Made

variable {e : Entry} {d : Draft} {now : Instant} {st : Status} {ref : Option String}

theorem ofDraft (id : Nat) (d : Draft) (now : Instant) :
    (Entry.ofDraft id d now).Made d now .pending none := ⟨rfl, rfl, rfl, rfl⟩

theorem user_eq (h : e.Made d now st ref) : e.user = d.user := user_eq_of_origin h.origin

theorem amount_eq (h : e.Made d now st ref) : e.amount = d.amount := amount_eq_of_origin h.origin

theorem kind_eq (h : e.Made d now st ref) : e.kind = d.kind := kind_eq_of_origin h.origin

theorem method_eq (h : e.Made d now st ref) : e.method = d.method := method_eq_of_origin h.origin

/-- A note changes nothing of this. -/
theorem noted (h : e.Made d now st ref) (text : String) (t : Instant) :
    ((Change.note text).result e t).Made d now st ref :=
  ⟨h.origin, h.status_eq, h.reference_eq, h.processedAt_eq⟩

/-- What a change makes of a new entry in the store. -/
theorem bumped_result (h : e.Made d now .pending none) (c : Change) :
    (Store.bumped (c.result e now)).Made d now (c.status?.getD .pending) c.reference? := by
  obtain ⟨ho, hs, hr, hp⟩ := h
  cases c with
  | complete => exact ⟨ho, rfl, rfl, rfl⟩
  | fail | cancel => exact ⟨ho, rfl, hr, rfl⟩
  | note => exact ⟨ho, hs, hr, hp⟩

end Entry.Made

namespace Store

variable {s s' s'' : Store} {e x : Entry} {es es' : List Entry}

/-- Whether a store has these entries behind those of another one, and has given as many
identifiers more. -/
structure Extends (s : Store) (es : List Entry) (s' : Store) : Prop where
  entries : s'.entries = s.entries ++ es
  lastId : s'.lastId = s.lastId + es.length

namespace Extends

theorem refl (s : Store) : s.Extends [] s := ⟨(List.append_nil _).symm, rfl⟩

theorem trans (h : s.Extends es s') (h' : s'.Extends es' s'') : s.Extends (es ++ es') s'' where
  entries := by rw [h'.entries, h.entries, List.append_assoc]
  lastId := by rw [h'.lastId, h.lastId, List.length_append, Nat.add_assoc]

theorem insert (s : Store) (d : Draft) (now : Instant) :
    s.Extends [s.upcoming d now] (s.insert d now) := ⟨rfl, rfl⟩

/-- Replacing one of the entries leaves the others as they are. -/
theorem replace (h : s.Extends (es ++ x :: es') s') (hid : e.id = x.id) :
    s.Extends (es ++ e :: es') (s'.replace e) := by
  have hnodup := s'.ascending.imp fun hlt => Nat.ne_of_lt hlt
  rw [h.entries, ← List.append_assoc, List.map_append, List.map_cons,
    List.pairwise_append, List.pairwise_cons] at hnodup
  obtain ⟨-, ⟨hafter, -⟩, hbefore⟩ := hnodup
  have hkeep : ∀ ys : List Entry, (∀ y ∈ ys, y.id ≠ e.id) → replaced e ys = ys := fun ys hys =>
    (List.map_congr_left fun y hy => if_neg (hys y hy)).trans (List.map_id ys)
  refine ⟨?_, h.lastId.trans (by simp)⟩
  change replaced e s'.entries = _
  rw [h.entries, ← List.append_assoc, replaced, List.map_append, List.map_cons, if_pos hid.symm,
    ← List.append_assoc]
  congr 1
  · refine hkeep _ fun y hy hye => ?_
    exact hbefore _ (List.mem_map_of_mem hy) _ List.mem_cons_self (hye.trans hid)
  · congr 1
    refine hkeep _ fun y hy hye => ?_
    exact hafter _ (List.mem_map_of_mem hy) (hid.symm.trans hye.symm)

theorem get? (h : s.Extends es s') (hx : x ∈ es) : s'.get? x.id = some x :=
  get?_eq_some.2 ⟨h.entries ▸ List.mem_append_right _ hx, rfl⟩

theorem query (h : s.Extends es s') (sel : Selection) :
    s'.query sel = s.query sel ++ es.filter sel.selects := by
  rw [Store.query, h.entries, List.filter_append, Store.query]

/-- What the entries behind a store add to the worth of a wallet. -/
theorem worth (h : s.Extends es s') (user : Nat) :
    s'.worth user = s.worth user + (es.map fun e => e.movesTo user).sum := by
  rw [worth_eq_sum, worth_eq_sum, h.entries, List.map_append, List.sum_append]

end Extends

end Store

end Paybook
