import Paybook.Service.Settlement

/-! # The requests of programs

A program may be told by the sorts of requests that it can come to: one that only `Looks` neither
takes locks nor writes, one that is `LockFree` may write. A call `LocksFirst` when it takes no lock
once it has written. -/

namespace Paybook

namespace Request

/-- Whether a request takes no lock. -/
def TakesNoLock : Request → Prop
  | .lock _ => False
  | _ => True

/-- Whether a request writes an entry. -/
def Writes : Request → Prop
  | .insert _ | .update _ => True
  | _ => False

/-- Whether a request neither takes a lock nor writes. -/
def Looks : Request → Prop
  | .lock _ | .insert _ | .update _ => False
  | _ => True

end Request

namespace Program

variable {α β : Type} {p : Program α} {sort : Request → Prop}

/-- Whether all requests that a program may come to are of some sort. -/
def Only (sort : Request → Prop) : Program α → Prop
  | done _ => True
  | ask r next => sort r ∧ ∀ reply, (next reply).Only sort

theorem Only.done (o : Outcome α) : (done o).Only sort := trivial

theorem Only.mono {sort' : Request → Prop} (h : p.Only sort) (hs : ∀ r, sort r → sort' r) :
    p.Only sort' := by
  induction p with
  | done o => trivial
  | ask r next ih => exact ⟨hs r h.1, fun reply => ih reply (h.2 reply)⟩

theorem Only.onFailure {handle : Failure → Program α} (hp : p.Only sort)
    (hh : ∀ e, (handle e).Only sort) : (p.onFailure handle).Only sort := by
  induction p with
  | done o =>
    cases o with
    | failed e => exact hh e
    | returned a => trivial
    | overflowed => trivial
  | ask r next ih => exact ⟨hp.1, fun reply => ih reply (hp.2 reply)⟩

theorem Only.bind {f : α → Program β} (hp : p.Only sort) (hf : ∀ a, (f a).Only sort) :
    (p >>= f).Only sort := by
  change (p.bind f).Only sort
  induction p with
  | done o =>
    cases o with
    | returned a => exact hf a
    | failed e => trivial
    | overflowed => trivial
  | ask r next ih => exact ⟨hp.1, fun reply => ih reply (hp.2 reply)⟩

theorem Only.require (c : Bool) (e : Failure) : (require c e).Only sort := by
  unfold Program.require
  split <;> trivial

theorem Only.ofAttempt (x : Attempt α) : (ofAttempt x).Only sort := by
  cases x <;> trivial

theorem Only.inRange (x : Option α) : (inRange x).Only sort := by
  cases x <;> trivial

theorem Only.request {r : Request} (h : sort r) : (request r).Only sort := ⟨h, fun _ => trivial⟩

theorem only_select {sel : Selection} (h : sort (.query sel)) : (select sel).Only sort :=
  (Only.request h).bind fun _ => .ofAttempt _

theorem only_load {id : Nat} (h : sort (.get id)) : (load id).Only sort :=
  ((Only.request h).bind fun _ => .ofAttempt _).bind fun e => by cases e <;> trivial

/-- A program that only looks. -/
abbrev Looks (p : Program α) : Prop := p.Only Request.Looks

theorem looks_load (id : Nat) : (load id).Looks := only_load trivial

/-- A program that takes no locks. -/
abbrev LockFree (p : Program α) : Prop := p.Only Request.TakesNoLock

theorem Looks.lockFree (h : p.Looks) : p.LockFree :=
  h.mono fun r hr => by cases r <;> trivial

/-- Whether a program takes no lock once it has written. -/
def LocksFirst : Program α → Prop
  | done _ => True
  | ask r next => (∀ reply, (next reply).LocksFirst) ∧ (r.Writes → ∀ reply, (next reply).LockFree)

theorem LockFree.locksFirst (h : p.LockFree) : p.LocksFirst := by
  induction p with
  | done o => trivial
  | ask r next ih => exact ⟨fun reply => ih reply (h.2 reply), fun _ => h.2⟩

theorem Looks.locksFirst_bind {f : α → Program β} (h : p.Looks) (hf : ∀ a, (f a).LocksFirst) :
    (p >>= f).LocksFirst := by
  change (p.bind f).LocksFirst
  induction p with
  | done o =>
    cases o with
    | returned a => exact hf a
    | failed e => trivial
    | overflowed => trivial
  | ask r next ih =>
    refine ⟨fun reply => ih reply (h.2 reply), fun hw => ?_⟩
    cases r with
    | insert | update => exact absurd h.1 id
    | _ => exact absurd hw id

/-- Taking locks and what takes none. -/
theorem locksFirst_acquire {keys : List LockKey} {f : Unit → Program α}
    (hf : (f ()).LockFree) : (acquire keys >>= f).LocksFirst := by
  change ((takeLocks _).bind f).LocksFirst
  induction LockKey.schedule keys with
  | nil => exact hf.locksFirst
  | cons key keys ih => exact ⟨fun _ => ih, fun hw => absurd hw id⟩

/-! ## Shared steps -/

theorem lockFree_book (d : Draft) : (book d).LockFree :=
  (Only.request trivial).bind fun _ => .ofAttempt _

theorem lockFree_update (e : Entry) : (update e).LockFree :=
  (Only.request trivial).bind fun _ => .ofAttempt _

theorem lockFree_change (c : Change) (e : Entry) : (change c e).LockFree :=
  (Only.request trivial).bind fun _ => .ofAttempt _

theorem lockFree_complete (e : Entry) (reference : String) : (complete e reference).LockFree :=
  (lockFree_change _ e).bind lockFree_update

theorem lockFree_completeFreshly (e : Entry) (word : String) : (completeFreshly e word).LockFree :=
  ((Only.request trivial).bind fun _ => .done _).bind fun _ => lockFree_complete e _

theorem lockFree_abandon (id : Nat) (f : Failure) : (abandon id f).LockFree := by
  refine (Only.request trivial).bind ?_
  intro reply
  split
  · split
    · trivial
    · refine (Only.request trivial).bind ?_
      intro now
      split
      · exact (Only.request trivial).bind fun _ => trivial
      · trivial
  · trivial

/-- Booking an entry and bringing it to its end. -/
theorem lockFree_book_orAbandon (d : Draft) {f : Entry → Program Entry} (hf : ∀ e, (f e).LockFree) :
    (book d >>= fun e => orAbandon e (f e)).LockFree :=
  (lockFree_book d).bind fun e => (hf e).onFailure (lockFree_abandon e.id)

end Program

end Paybook
