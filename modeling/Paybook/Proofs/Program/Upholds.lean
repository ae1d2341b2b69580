import Paybook.Proofs.Entry.WellFormed
import Paybook.Proofs.Program.Requests

/-! # Programs that write well-formed entries

A program `Upholds` a condition when it writes only well-formed entries as long as it is told of
no others, and when the condition holds of what it returns then. The condition is what the next
program may rely on: that an identifier is not 0, say, or that an entry is well formed. -/

namespace Paybook

open Text (IsTrimmed IsSolid)

namespace Request

/-- Whether what a request writes, if it writes, is well formed. -/
def Fits : Request → Prop
  | .insert d => d.WellFormed
  | .update e => e.WellFormed
  | _ => True

/-- Whether a reply tells of well-formed entries only. -/
def Tells : (r : Request) → r.Reply → Prop
  | .get _, reply => ∀ e, reply = .ok (some e) → e.WellFormed
  | .query _, reply => ∀ es, reply = .ok es → ∀ e ∈ es, e.WellFormed
  | .insert _, reply => ∀ e, reply = .ok e → e.WellFormed
  | .update _, reply => ∀ e, reply = .ok e → e.WellFormed
  | .findReference _, reply => ∀ e, reply = some e → e.WellFormed
  | .lock _, _ | .user _, _ | .order _, _ | .contains _, _ | .verdict _, _ | .clock, _
  | .token, _ => True

theorem Looks.fits {r : Request} (h : r.Looks) : r.Fits := by
  cases r with
  | insert | update => exact absurd h id
  | _ => trivial

end Request

namespace Program

variable {α β : Type} {p : Program α} {Q : α → Prop} {e : Entry}

/-- Whether a program writes only well-formed entries, and a condition holds of what it returns, as
long as it is told of well-formed entries only. -/
def Upholds : Program α → (α → Prop) → Prop
  | done o, Q => ∀ a, o = .returned a → Q a
  | ask r next, Q => r.Fits ∧ ∀ reply, r.Tells reply → (next reply).Upholds Q

theorem Upholds.mono {R : α → Prop} (h : p.Upholds Q) (hm : ∀ a, Q a → R a) : p.Upholds R := by
  induction p with
  | done o => exact fun a ho => hm a (h a ho)
  | ask r next ih => exact ⟨h.1, fun reply ht => ih reply (h.2 reply ht)⟩

/-! ## Programs put together -/

theorem Upholds.bind {f : α → Program β} {R : β → Prop} (hp : p.Upholds Q)
    (hf : ∀ a, Q a → (f a).Upholds R) : (p >>= f).Upholds R := by
  change (p.bind f).Upholds R
  induction p with
  | done o =>
    cases o with
    | returned a => exact hf a (hp a rfl)
    | failed e => exact nofun
    | overflowed => exact nofun
  | ask r next ih => exact ⟨hp.1, fun reply ht => ih reply (hp.2 reply ht)⟩

theorem Upholds.onFailure {handle : Failure → Program α} (hp : p.Upholds Q)
    (hh : ∀ e, (handle e).Upholds Q) : (p.onFailure handle).Upholds Q := by
  induction p with
  | done o =>
    cases o with
    | failed e => exact hh e
    | returned a => exact hp
    | overflowed => exact nofun
  | ask r next ih => exact ⟨hp.1, fun reply ht => ih reply (hp.2 reply ht)⟩

theorem upholds_fail (f : Failure) : (fail f : Program α).Upholds Q := nofun

theorem upholds_pure {a : α} (h : Q a) : (pure a : Program α).Upholds Q := by
  rintro _ ⟨⟩
  exact h

theorem upholds_require (c : Bool) (f : Failure) : (require c f).Upholds fun _ => c = true := by
  unfold require
  split
  · next h => exact upholds_pure h
  · exact upholds_fail f

theorem upholds_ofAttempt (x : Attempt α) : (ofAttempt x).Upholds fun a => x = .ok a := by
  cases x with
  | ok a => exact upholds_pure rfl
  | error f => exact upholds_fail f

theorem upholds_request {r : Request} (h : r.Fits) : (request r).Upholds r.Tells :=
  ⟨h, fun _ ht => upholds_pure ht⟩

/-- A program that only looks writes nothing. -/
theorem Looks.upholds (h : p.Looks) : p.Upholds fun _ => True := by
  induction p with
  | done o => exact fun _ _ => trivial
  | ask r next ih => exact ⟨h.1.fits, fun reply _ => ih reply (h.2 reply)⟩

theorem Looks.upholds_bind {f : α → Program β} {R : β → Prop} (h : p.Looks)
    (hf : ∀ a, (f a).Upholds R) : (p >>= f).Upholds R := h.upholds.bind fun a _ => hf a

theorem upholds_acquire (keys : List LockKey) : (acquire keys).Upholds fun _ => True := by
  rw [acquire]
  induction LockKey.schedule keys with
  | nil => exact upholds_pure trivial
  | cons key keys ih => exact ⟨trivial, fun _ _ => ih⟩

/-! ## Shared steps -/

theorem upholds_requireId (id : Nat) (what : String) :
    (requireId id what).Upholds fun _ => id ≠ 0 :=
  (upholds_require _ _).mono fun _ h => of_decide_eq_true h

theorem upholds_load (id : Nat) : (load id).Upholds Entry.WellFormed := by
  have hget : (get? id).Upholds fun found => ∀ e, found = some e → e.WellFormed := by
    refine (upholds_request (r := .get id) trivial).bind fun reply ht => ?_
    refine (upholds_ofAttempt reply).mono ?_
    rintro found rfl e rfl
    exact ht e rfl
  refine hget.bind fun found hfound => ?_
  cases found with
  | some e => exact upholds_pure (hfound e rfl)
  | none => exact upholds_fail _

theorem upholds_book {d : Draft} (h : d.WellFormed) : (book d).Upholds Entry.WellFormed := by
  refine (upholds_request (r := .insert d) h).bind fun reply ht => ?_
  exact (upholds_ofAttempt reply).mono fun e he => ht e he

theorem upholds_update (h : e.WellFormed) : (update e).Upholds Entry.WellFormed := by
  refine (upholds_request (r := .update e) h).bind fun reply ht => ?_
  exact (upholds_ofAttempt reply).mono fun e' he => ht e' he

theorem upholds_change (h : e.WellFormed) {c : Change} (hc : c.Fit) :
    (change c e).Upholds Entry.WellFormed := by
  refine (upholds_request (r := .clock) trivial).bind fun now _ => ?_
  exact (upholds_ofAttempt _).mono fun e' he => h.apply hc he

/-- An entry that is amended without being completed. -/
theorem upholds_amend (h : e.WellFormed) {c : Change} (hc : c.reference? = none) :
    (change c e >>= update).Upholds Entry.WellFormed := by
  refine (upholds_change h fun r hr => ?_).bind fun _ => upholds_update
  rw [hc] at hr
  cases hr

theorem upholds_complete (h : e.WellFormed) {reference : String} (hr : IsTrimmed reference) :
    (complete e reference).Upholds Entry.WellFormed := by
  refine (upholds_change h ?_).bind fun _ => upholds_update
  rintro _ ⟨⟩
  exact hr

/-- The references that are made for entries have no blank in them. -/
theorem upholds_completeFreshly (h : e.WellFormed) {word : String} (hword : IsSolid word) :
    (completeFreshly e word).Upholds Entry.WellFormed := by
  have hfresh : (freshReference word).Upholds IsTrimmed := by
    refine (upholds_request (r := .token) trivial).bind fun token _ => upholds_pure ?_
    have hdash : IsSolid "-" := rfl
    refine ((hword.append hdash).append (Text.isSolid_ofList_writeHex 32 _)).isTrimmed ?_
    simp
  exact hfresh.bind fun _ => upholds_complete h

theorem upholds_abandon (id : Nat) (f : Failure) : (abandon id f).Upholds Entry.WellFormed := by
  refine (upholds_request (r := .get id) trivial).bind fun reply ht => ?_
  split
  · next e =>
    split
    · exact upholds_fail f
    · refine (upholds_request (r := .clock) trivial).bind fun now _ => ?_
      split
      · next e' he =>
        have he' : e'.WellFormed := (ht e rfl).apply (c := .fail f.detail) nofun he
        exact (upholds_request (r := .update e') he').bind fun _ _ => upholds_fail f
      · exact upholds_fail f
  · exact upholds_fail f

/-- Booking an entry and bringing it to its end. -/
theorem upholds_book_orAbandon {d : Draft} (h : d.WellFormed) {f : Entry → Program Entry}
    (hf : ∀ e, e.WellFormed → (f e).Upholds Entry.WellFormed) :
    (book d >>= fun e => orAbandon e (f e)).Upholds Entry.WellFormed :=
  (upholds_book h).bind fun e he => (hf e he).onFailure (upholds_abandon e.id)

end Program

end Paybook
