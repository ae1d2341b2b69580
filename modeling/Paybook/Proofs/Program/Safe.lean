import Paybook.Proofs.Program.Requests
import Paybook.Proofs.Program.Steps

/-! # Safe programs

A program that only looks may stand in front of any other one: it ends without having changed
anything, and what comes after it starts where it did. A program is `Safe` when it makes only writes
that are allowed and takes all its locks before them. -/

namespace Paybook.Program

variable {α β : Type} {p : Program α} {held : List LockKey} {s : Store} {post : Post β}

/-- Nothing has changed but aside when a program that only looks ends. -/
theorem Looks.checks (h : p.Looks) : p.Checks held (fun _ _ => True) s := by
  induction p generalizing s with
  | done o => exact checks_done fun _ _ _ _ => trivial
  | ask r next ih =>
    intro s' ha
    have hnext : ∀ reply, (next reply).Secures held (fun held' o s'' => held' = held ∧
        s.Aside held s'' ∧ ∀ a, o = .returned a → True) s' := fun reply =>
      (ih reply (h.2 reply)).mono fun _ _ _ ⟨hh, ha', _⟩ => ⟨hh, ha.trans ha', fun _ _ => trivial⟩
    cases r with
    | lock | insert | update => exact absurd h.1 id
    | get id => exact hnext _
    | query sel => exact hnext _
    | user | order | findReference | contains | verdict | clock | token => exact hnext

theorem Looks.secures_bind {f : α → Program β} (h : p.Looks) (hl : Post.Lenient post held s)
    (hf : ∀ a s', s.Aside held s' → (f a).Secures held post s') :
    (p >>= f).Secures held post s :=
  h.checks.secures_bind hl fun a s' ha _ => hf a s' ha

/-- Whether a program makes only writes that are allowed, from wherever it starts, and takes no lock
once it has written. -/
structure Safe (p : Program α) : Prop where
  secures : ∀ held s, p.Secures held .any s
  locksFirst : p.LocksFirst

theorem Safe.bind_of_looks {f : α → Program β} (h : p.Looks) (hf : ∀ a, (f a).Safe) :
    (p >>= f).Safe where
  secures held _ := h.secures_bind .any fun a s' _ => (hf a).secures held s'
  locksFirst := h.locksFirst_bind fun a => (hf a).locksFirst

/-- A program is safe when it is so under the locks that it takes first. -/
theorem Safe.of_acquire {keys : List LockKey} {f : Unit → Program α} (hfree : (f ()).LockFree)
    (h : ∀ held s, (∀ k ∈ keys, k ∈ held) → (f ()).Secures held .any s) :
    (acquire keys >>= f).Safe where
  secures _ _ := secures_acquire fun held s' _ hkeys => h held s' hkeys
  locksFirst := locksFirst_acquire hfree

end Paybook.Program
