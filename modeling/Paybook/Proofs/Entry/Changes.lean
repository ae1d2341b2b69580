import Mathlib.Data.List.Induction
import Paybook.Proofs.Entry.Origin

/-! # Changes in a row

Of all changes that are tried on an entry from its draft on, exactly those up to the first one that
leads to a final status succeed, and that one decides what becomes of the entry:
`Change.ends_once`. Changes are made field by field in place, so a change that failed halfway would
leave traces. None does, since the status is checked before anything is written:
`Change.run_amend`. -/

namespace Paybook

open Time

namespace Change

variable {cs : List (Change × Instant)} {c : Change} {e : Entry} {now : Instant}

/-! ## One change that may fail -/

theorem getD_apply (c : Change) (e : Entry) (now : Instant) :
    (c.apply e now).toOption.getD e = if e.isFinal then e else c.result e now := by
  cases hf : e.isFinal with
  | false =>
    rw [apply_eq_ok.2 ⟨Entry.isFinal_eq_false.1 hf, rfl⟩]
    rfl
  | true =>
    cases happly : c.apply e now with
    | error f => rfl
    | ok e' =>
      have hp := Entry.isFinal_eq_false.2 (apply_eq_ok.1 happly).1
      rw [hf] at hp
      cases hp

/-- What is done to an entry in place, where a failure leaves what was written before it. -/
abbrev InPlace := ExceptT Failure (StateM Entry) Unit

/-- Nothing, unless the status is final. -/
def InPlace.checkPending : InPlace := do
  liftExcept (← get).checkPending

/-- Ends a pending entry in place. -/
def InPlace.finish (status : Status) (now : Instant) : InPlace := do
  checkPending
  modify fun e => { e with status := status }
  modify fun e => { e with updatedAt := now }
  modify fun e => { e with processedAt := some now }

/-- Puts a note behind the description in place. -/
def InPlace.describe (text : String) : InPlace :=
  modify fun e => { e with description := Entry.withNote e.description text }

/-- The change, made in place. -/
def amend : Change → Instant → InPlace
  | .complete reference, now => do
    InPlace.finish .completed now
    modify fun e => { e with reference := some reference }
  | .fail reason, now => do
    InPlace.finish .failed now
    InPlace.describe ("Failed: " ++ reason)
  | .cancel reason, now => do
    InPlace.finish .cancelled now
    InPlace.describe ("Cancelled: " ++ reason)
  | .note text, now => do
    InPlace.checkPending
    InPlace.describe text
    modify fun e => { e with updatedAt := now }

namespace InPlace

theorem run_bind (first next : InPlace) (e : Entry) :
    (first >>= fun _ => next).run.run e =
      match first.run.run e with
      | (.ok _, e) => next.run.run e
      | (.error f, e) => (.error f, e) := by
  rw [ExceptT.run_bind, StateT.run_bind]
  rcases first.run.run e with ⟨_ | _, e'⟩ <;> rfl

theorem run_checkPending (e : Entry) : checkPending.run.run e = (e.checkPending, e) := by
  change (liftExcept e.checkPending : InPlace).run.run e = _
  cases e.checkPending <;> rfl

theorem run_finish (status : Status) (e : Entry) (now : Instant) :
    (finish status now).run.run e =
      match e.checkPending with
      | .ok _ => (.ok (), e.finished status now)
      | .error f => (.error f, e) := by
  rw [finish, run_bind, run_checkPending]
  cases e.checkPending <;> rfl

end InPlace

/-- A change in place that fails leaves the entry as it was. -/
theorem run_amend (c : Change) (e : Entry) (now : Instant) :
    (c.amend now).run.run e =
      match c.apply e now with
      | .ok e' => (.ok (), e')
      | .error f => (.error f, e) := by
  rw [apply_eq]
  cases c with
  | complete | fail | cancel =>
    rw [amend, InPlace.run_bind, InPlace.run_finish]
    cases e.checkPending <;> rfl
  | note =>
    rw [amend, InPlace.run_bind, InPlace.run_checkPending]
    cases e.checkPending <;> rfl

/-! ## Changes one after the other -/

theorem origin_applyAll (cs : List (Change × Instant)) (e : Entry) :
    (applyAll cs e).origin = e.origin := by
  induction cs generalizing e with
  | nil => rfl
  | cons c cs ih =>
    refine (ih _).trans ?_
    change ((c.1.apply e c.2).toOption.getD e).origin = e.origin
    rw [getD_apply]
    split
    · rfl
    · exact c.1.origin_result e c.2

theorem version_applyAll (cs : List (Change × Instant)) (e : Entry) :
    (applyAll cs e).version = e.version := by
  induction cs generalizing e with
  | nil => rfl
  | cons c cs ih =>
    refine (ih _).trans ?_
    change ((c.1.apply e c.2).toOption.getD e).version = e.version
    rw [getD_apply]
    split
    · rfl
    · exact c.1.version_result e c.2

/-- An entry that has come to its end does not change any more. -/
theorem applyAll_of_final (h : e.isFinal = true) : applyAll cs e = e := by
  induction cs with
  | nil => rfl
  | cons c cs ih =>
    change applyAll cs ((c.1.apply e c.2).toOption.getD e) = e
    rw [getD_apply, if_pos h, ih]

/-- The change that is tried last comes upon what the others have made. -/
theorem applyAll_concat (cs : List (Change × Instant)) (c : Change) (now : Instant) (e : Entry) :
    applyAll (cs ++ [(c, now)]) e =
      if (applyAll cs e).isFinal then applyAll cs e else c.result (applyAll cs e) now := by
  rw [← getD_apply]
  exact List.foldl_append

/-! ## The change that ends an entry -/

/-- The first change that leads to a final status, and its time. -/
def ending? (cs : List (Change × Instant)) : Option (Change × Instant) :=
  cs.find? fun c => c.1.status?.isSome

/-- Whether an entry was ended by this change at this time, or not yet. -/
structure Ends (ending : Option (Change × Instant)) (e : Entry) : Prop where
  isFinal : e.isFinal = ending.isSome
  status : e.status = (ending.bind fun c => c.1.status?).getD .pending
  reference : e.reference = ending.bind fun c => c.1.reference?
  processedAt : e.processedAt = ending.map Prod.snd
  updatedAt : ∀ t, e.processedAt = some t → e.updatedAt = t

theorem ends_ofDraft (id : Nat) (d : Draft) (now : Instant) : Ends none (.ofDraft id d now) :=
  ⟨rfl, rfl, rfl, rfl, nofun⟩

/-- A change ends an entry that has not come to its end, if it leads there. -/
theorem Ends.result (h : Ends none e) (c : Change) (now : Instant) :
    Ends (ending? [(c, now)]) (c.result e now) := by
  cases c with
  | complete reference => exact ⟨rfl, rfl, rfl, rfl, fun _ ht => Option.some.inj ht⟩
  | fail | cancel => exact ⟨rfl, rfl, h.reference, rfl, fun _ ht => Option.some.inj ht⟩
  | note =>
    refine ⟨h.isFinal, h.status, h.reference, h.processedAt, fun _ ht => ?_⟩
    have hnone : e.processedAt = none := h.processedAt
    rw [show (Change.result _ e now).processedAt = e.processedAt from rfl, hnone] at ht
    cases ht

theorem ending?_append (cs cs' : List (Change × Instant)) :
    ending? (cs ++ cs') = (ending? cs).or (ending? cs') := List.find?_append

theorem ends_applyAll (h : Ends none e) (cs : List (Change × Instant)) :
    Ends (ending? cs) (applyAll cs e) := by
  induction cs using List.reverseRecOn with
  | nil => exact h
  | append_singleton cs c ih =>
    rw [applyAll_concat, ih.isFinal, ending?_append]
    cases hending : ending? cs with
    | none =>
      rw [hending] at ih
      exact ih.result c.1 c.2
    | some ending =>
      rw [hending] at ih
      exact ih

/-- A description only grows at its end. -/
theorem description_result (c : Change) (e : Entry) (now : Instant) :
    e.description.toList <+: (c.result e now).description.toList := by
  have hnote : ∀ text, e.description.toList <+: (Entry.withNote e.description text).toList := by
    intro text
    unfold Entry.withNote
    split
    · next hempty => simp [String.isEmpty_iff.1 hempty]
    · simp [String.toList_append, List.append_assoc]
  cases c with
  | complete reference => exact List.prefix_rfl
  | fail | cancel | note => exact hnote _

/-- Whatever changes have been tried on an entry since it came out of its draft, in whatever order
and with whatever texts, the next one succeeds exactly if none of them led to a final status, and
otherwise fails and leaves the entry as it is. The first one that led to a final status has given
the entry its status, its reference, if it was a completion, and the time of its processing, which
is that of its last update. The description only grows at its end, and nothing else ever changes. -/
theorem ends_once (id : Nat) (d : Draft) (opened : Instant) (cs : List (Change × Instant))
    (c : Change) (now : Instant) :
    let e := applyAll cs (.ofDraft id d opened)
    let e' := applyAll (cs ++ [(c, now)]) (.ofDraft id d opened)
    (c.amend now).run.run e =
      (if ending? cs = none then .ok ()
       else .error (.preconditionFailed s!"Transaction {id} is already {e.status}"), e') ∧
    (ending? cs ≠ none → e' = e) ∧
    e.status = ((ending? cs).bind fun c => c.1.status?).getD .pending ∧
    e.reference = (ending? cs).bind (fun c => c.1.reference?) ∧
    e.processedAt = (ending? cs).map Prod.snd ∧
    (∀ t, e.processedAt = some t → e.updatedAt = t) ∧
    e.description.toList <+: e'.description.toList ∧
    e.origin = (Entry.ofDraft id d opened).origin ∧ e.version = 0 := by
  intro e e'
  have hends : Ends (ending? cs) e := ends_applyAll (ends_ofDraft id d opened) cs
  have horigin : e.origin = (Entry.ofDraft id d opened).origin := origin_applyAll cs _
  have hid : e.id = id := Entry.id_eq_of_origin horigin
  have he' : e' = if e.isFinal then e else c.result e now := applyAll_concat cs c now _
  have hcheck : e.checkPending = if ending? cs = none then .ok ()
      else .error (.preconditionFailed s!"Transaction {id} is already {e.status}") := by
    rw [Entry.checkPending, hends.isFinal, hid]
    cases ending? cs <;> rfl
  refine ⟨?_, fun hne => ?_, hends.status, hends.reference, hends.processedAt, hends.updatedAt, ?_,
    horigin, version_applyAll cs _⟩
  · rw [run_amend, apply_eq, hcheck, he', hends.isFinal]
    cases ending? cs <;> rfl
  · rw [he', hends.isFinal, if_pos (Option.isSome_iff_ne_none.2 hne)]
  · rw [he']
    split
    · exact List.prefix_rfl
    · exact description_result c e now

end Change

end Paybook
