import Paybook.Proofs.Store.Writes
import Paybook.Service.Settlement

/-! # Programs under locks

A caller that holds some locks relies on the others to leave the entries under their keys alone:
`Store.Aside`. `Program.Secures` says that a program, with anything of this kind happening in front
of each of its steps, makes no write but those that `Store.Writes` allows, to no entry but those
whose keys it holds, and ends as a condition says. The rules follow the program, one for each way
in which programs are put together; the rules of single requests are in `Request.Allowed`. -/

namespace Paybook

open Time

/-! ## What the others do -/

/-- What may happen to a store while somebody holds some locks: it grows, and the entries under the
keys of the locks stay as they are. -/
structure Store.Aside (held : List LockKey) (s s' : Store) : Prop where
  grows : s.Grows s'
  under : ∀ k ∈ held, s'.under k = s.under k

namespace Store.Aside

variable {held held' : List LockKey} {s s' s'' : Store} {e : Entry}

theorem refl (held : List LockKey) (s : Store) : s.Aside held s := ⟨.refl s, fun _ _ => rfl⟩

theorem trans (h : s.Aside held s') (h' : s'.Aside held s'') : s.Aside held s'' :=
  ⟨h.grows.trans h'.grows, fun k hk => (h'.under k hk).trans (h.under k hk)⟩

theorem follows (h : s.Aside held s') (hk : ∀ k ∈ e.keys, k ∈ held) (hf : s.Follows e) :
    s'.Follows e :=
  hf.of_under e.user_mem_keys (h.under _ (hk _ e.user_mem_keys))

theorem query (h : s.Aside held s') {sel : Selection} {k : LockKey} (hk : k ∈ held)
    (hp : sel.Pins k) : s'.query sel = s.query sel :=
  query_eq_of_under (h.under k hk) hp

theorem admits (h : s.Aside held s') (hk : ∀ k ∈ e.keys, k ∈ held) (ha : s.Admits e) :
    s'.Admits e :=
  ha.of_queries fun _ _ ⟨k, hk', hp⟩ => h.query (hk k hk') hp

end Store.Aside

/-! ## Requests -/

/-- Whether a request may be made of a store under some locks, and whether a condition holds of its
reply and of the store afterwards. What does not come from the store may be anything. -/
def Request.Allowed (held : List LockKey) (s : Store) :
    (r : Request) → (r.Reply → Store → Prop) → Prop
  | .lock _, next => next () s
  | .get id, next => next (.ok (s.get? id)) s
  | .query sel, next => next (.ok (s.query sel)) s
  | .insert d, next =>
    (∀ k ∈ d.keys, k ∈ held) ∧ ∀ now, (d.kind = .refund → s.Backs (s.upcoming d now)) ∧
      next (.ok (s.upcoming d now)) (s.insert d now)
  | .update e, next =>
    (∀ k ∈ e.keys, k ∈ held) ∧ s.Follows e ∧ (e.status = .completed → s.Admits e) ∧
      next (.ok (Store.bumped e)) (s.replace (Store.bumped e))
  | _, next => ∀ reply, next reply s

theorem Request.Allowed.mono {held : List LockKey} {s : Store} {r : Request}
    {P Q : r.Reply → Store → Prop} (h : r.Allowed held s P)
    (hPQ : ∀ reply s', P reply s' → Q reply s') : r.Allowed held s Q := by
  cases r with
  | lock | get | query => exact hPQ _ _ h
  | insert => exact ⟨h.1, fun now => ⟨(h.2 now).1, hPQ _ _ (h.2 now).2⟩⟩
  | update => exact ⟨h.1, h.2.1, h.2.2.1, hPQ _ _ h.2.2.2⟩
  | user | order | findReference | contains | verdict | clock | token =>
    exact fun reply => hPQ _ _ (h reply)

/-- The locks that are held after a request. -/
def Request.heldAfter (held : List LockKey) : Request → List LockKey
  | .lock k => k :: held
  | _ => held

namespace Program

/-- A condition on the locks that are held at the end of a program, on its end, and on the store
then. -/
abbrev Post (α : Type) := List LockKey → Outcome α → Store → Prop

variable {α β : Type} {held : List LockKey} {s s' : Store}

/-- Whether a program that starts at a store under some locks makes only writes that are allowed,
and ends as a condition says, whatever others do aside. -/
def Secures : List LockKey → Program α → Post α → Store → Prop
  | held, done o, post, s => ∀ s', s.Aside held s' → post held o s'
  | held, ask r next, post, s => ∀ s', s.Aside held s' →
    r.Allowed held s' fun reply s'' => (next reply).Secures (r.heldAfter held) post s''

variable {p : Program α} {post post' : Post α}

theorem Secures.mono (h : p.Secures held post s)
    (hm : ∀ held o s', post held o s' → post' held o s') : p.Secures held post' s := by
  induction p generalizing held s with
  | done o => exact fun s' ha => hm _ _ _ (h s' ha)
  | ask r next ih => exact fun s' ha => (h s' ha).mono fun reply s'' h => ih reply h

theorem Secures.aside (h : p.Secures held post s) (ha : s.Aside held s') :
    p.Secures held post s' := by
  cases p with
  | done o => exact fun s'' ha' => h s'' (ha.trans ha')
  | ask r next => exact fun s'' ha' => h s'' (ha.trans ha')

/-! ## Programs put together -/

/-- What must hold after the first part of a program, so that the second one can go on. -/
def Post.before (f : α → Program β) (post : Post β) : Post α
  | held, .returned a, s => (f a).Secures held post s
  | held, .failed e, s => post held (.failed e) s
  | held, .overflowed, s => post held .overflowed s

theorem secures_bind {f : α → Program β} {post : Post β}
    (h : p.Secures held (Post.before f post) s) : (p >>= f).Secures held post s := by
  change (p.bind f).Secures held post s
  induction p generalizing held s with
  | done o =>
    cases o with
    | returned a => exact h s (.refl held s)
    | failed e => exact h
    | overflowed => exact h
  | ask r next ih => exact fun s' ha => (h s' ha).mono fun reply s'' h => ih reply h

/-- What must hold after a program whose failure is handled. -/
def Post.handling (handle : Failure → Program α) (post : Post α) : Post α
  | held, .failed e, s => (handle e).Secures held post s
  | held, .returned a, s => post held (.returned a) s
  | held, .overflowed, s => post held .overflowed s

theorem secures_onFailure {handle : Failure → Program α}
    (h : p.Secures held (Post.handling handle post) s) :
    (p.onFailure handle).Secures held post s := by
  induction p generalizing held s with
  | done o =>
    cases o with
    | returned a => exact h
    | failed e => exact h s (.refl held s)
    | overflowed => exact h
  | ask r next ih => exact fun s' ha => (h s' ha).mono fun reply s'' h => ih reply h

/-- Whether a condition holds of every end but a return, however the store has grown until then. -/
def Post.Lenient (post : Post α) (held : List LockKey) (s : Store) : Prop :=
  ∀ o s', s.Grows s' → (∀ a, o ≠ .returned a) → post held o s'

theorem Post.Lenient.grows (h : Post.Lenient post held s) (hg : s.Grows s') :
    Post.Lenient post held s' := fun o s'' hg' ho => h o s'' (hg.trans hg') ho

theorem secures_fail (h : Post.Lenient post held s) (e : Failure) :
    (fail e).Secures held post s :=
  fun s' ha => h _ s' ha.grows fun _ ho => by cases ho

theorem Post.Lenient.before {f : α → Program β} {post : Post β} (h : Post.Lenient post held s) :
    Post.Lenient (Post.before f post) held s := by
  intro o s' hg ho
  cases o with
  | returned a => exact absurd rfl (ho a)
  | failed e => exact h _ s' hg fun _ h => by cases h
  | overflowed => exact h _ s' hg fun _ h => by cases h

/-- The condition that holds of every end. -/
def Post.any : Post α := fun _ _ _ => True

theorem Post.Lenient.any : Post.Lenient (Post.any : Post α) held s := fun _ _ _ _ => trivial

/-! ## Checks -/

/-- Whether a program only looks, and a fact about its value and the store holds when it returns. -/
def Checks (held : List LockKey) (p : Program α) (fact : α → Store → Prop) (s : Store) : Prop :=
  p.Secures held (fun held' o s' => held' = held ∧ s.Aside held s' ∧
    ∀ a, o = .returned a → fact a s') s

variable {fact : α → Store → Prop}

/-- A check in front of a program: what comes after it may use what was found. -/
theorem Checks.secures_bind {f : α → Program β} {post : Post β} (h : p.Checks held fact s)
    (hl : Post.Lenient post held s)
    (hf : ∀ a s', s.Aside held s' → fact a s' → (f a).Secures held post s') :
    (p >>= f).Secures held post s := by
  refine Program.secures_bind (Secures.mono h ?_)
  rintro _ o s' ⟨rfl, ha, hfact⟩
  cases o with
  | returned a => exact hf a s' ha (hfact a rfl)
  | failed e => exact hl _ s' ha.grows fun _ h => by cases h
  | overflowed => exact hl _ s' ha.grows fun _ h => by cases h

/-- A fact that follows from another one, whatever others do aside. -/
theorem Checks.imp {fact' : α → Store → Prop} (h : p.Checks held fact s)
    (hm : ∀ a s', s.Aside held s' → fact a s' → fact' a s') : p.Checks held fact' s :=
  h.mono fun _ _ s' ⟨hh, ha, hfact⟩ => ⟨hh, ha, fun a ho => hm a s' ha (hfact a ho)⟩

theorem Checks.bind {f : α → Program β} {fact' : β → Store → Prop} (h : p.Checks held fact s)
    (hf : ∀ a s', s.Aside held s' → fact a s' → (f a).Checks held fact' s') :
    (p >>= f).Checks held fact' s := by
  refine Program.secures_bind (Secures.mono h ?_)
  rintro _ o s' ⟨rfl, ha, hfact⟩
  cases o with
  | returned a =>
    refine (hf a s' ha (hfact a rfl)).mono ?_
    rintro _ o s'' ⟨rfl, ha', hfact'⟩
    exact ⟨rfl, ha.trans ha', hfact'⟩
  | failed e => exact ⟨rfl, ha, fun _ h => by cases h⟩
  | overflowed => exact ⟨rfl, ha, fun _ h => by cases h⟩

theorem checks_done {o : Outcome α} (h : ∀ a s', s.Aside held s' → o = .returned a → fact a s') :
    (done o).Checks held fact s :=
  fun s' ha => ⟨rfl, ha, fun a ho => h a s' ha ho⟩

theorem checks_require (c : Bool) (e : Failure) :
    (require c e).Checks held (fun _ _ => c = true) s := by
  unfold require
  split
  · next hc => exact checks_done fun _ _ _ _ => hc
  · exact checks_done fun _ _ _ h => by cases h

theorem checks_ofAttempt (x : Attempt α) :
    (ofAttempt x).Checks held (fun a _ => x = .ok a) s := by
  cases x with
  | ok a => exact checks_done fun _ _ _ h => by cases h; rfl
  | error e => exact checks_done fun _ _ _ h => by cases h

theorem checks_inRange (x : Option α) : (inRange x).Checks held (fun a _ => x = some a) s := by
  cases x with
  | some a => exact checks_done fun _ _ _ h => by cases h; rfl
  | none => exact checks_done fun _ _ _ h => by cases h

theorem checks_select (sel : Selection) :
    (select sel).Checks held (fun es s' => ∀ k ∈ held, sel.Pins k → es = s'.query sel) s := by
  intro s' ha s'' ha'
  refine ⟨rfl, ha.trans ha', fun es h k hk hp => ?_⟩
  cases h
  exact (ha'.query hk hp).symm

/-- The entry that is read is the one that is stored, up to what the others write meanwhile: it is
made with the same, and under the lock of its user it is the very one. -/
theorem checks_load (id : Nat) :
    (load id).Checks held (fun e s' => ∃ e', s'.get? id = some e' ∧ e'.origin = e.origin ∧
      (e.isFinal = true → e' = e) ∧ (.user e.user ∈ held → e' = e)) s := by
  intro s' ha
  change Secures held _ _ s'
  cases hget : s'.get? id with
  | none => exact fun s'' ha' => ⟨rfl, ha.trans ha', fun _ h => by cases h⟩
  | some e =>
    intro s'' ha'
    refine ⟨rfl, ha.trans ha', fun x h => ?_⟩
    cases h
    obtain ⟨e', he', ho⟩ := ha'.grows.exists_get? hget
    refine ⟨e', he', ho, fun hf => ?_, fun hk => ?_⟩
    · have hmem := ha'.grows.final e (Store.get?_eq_some.1 hget).1 hf
      exact Store.eq_of_id_eq (Store.get?_eq_some.1 he').1 hmem (Entry.id_eq_of_origin ho)
    · have := Store.get?_eq_of_under (ha'.under _ hk) e.user_mem_keys hget
      exact Option.some.inj (he'.symm.trans this)

end Program

end Paybook
