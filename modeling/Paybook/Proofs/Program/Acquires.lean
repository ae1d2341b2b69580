import Paybook.Proofs.Program.Requests
import Paybook.Proofs.Program.Secures

/-! # Programs that take locks once

A program that `AcquiresOnce` only looks until it takes all its locks at one place and in one go. So
it takes them before it writes, and whatever it waits for comes behind everything that it has: it
`Ascends`. -/

namespace Paybook.Program

variable {α β : Type} {p : Program α}

/-- Whether a program takes locks at most once, by acquiring some keys, and only looks before. -/
inductive AcquiresOnce : Program α → Prop
  | never {p : Program α} (free : p.LockFree) : AcquiresOnce p
  | later {r : Request} {next : r.Reply → Program α} (looks : r.Looks)
      (rest : ∀ reply, AcquiresOnce (next reply)) : AcquiresOnce (ask r next)
  | now (keys : List LockKey) {f : Unit → Program α} (free : (f ()).LockFree) :
      AcquiresOnce (acquire keys >>= f)

theorem Looks.acquiresOnce_bind {f : α → Program β} (h : p.Looks)
    (hf : ∀ a, (f a).AcquiresOnce) : (p >>= f).AcquiresOnce := by
  change (p.bind f).AcquiresOnce
  induction p with
  | done o =>
    cases o with
    | returned a => exact hf a
    | failed e => exact .never (.done _)
    | overflowed => exact .never (.done _)
  | ask r next ih => exact .later h.1 fun reply => ih reply (h.2 reply)

theorem AcquiresOnce.locksFirst (h : p.AcquiresOnce) : p.LocksFirst := by
  induction h with
  | never free => exact free.locksFirst
  | @later r next looks _ ih =>
    refine ⟨ih, fun hwrites => ?_⟩
    cases r with
    | insert | update => exact absurd looks id
    | _ => exact absurd hwrites id
  | now keys free => exact locksFirst_acquire free

/-! ## Locks in their order -/

/-- Whether a program with some locks taken only asks for locks that come behind all that it has. -/
def Ascends : Program α → List LockKey → Prop
  | done _, _ => True
  | ask r next, taken => (∀ key, r = .lock key → ∀ k ∈ taken, k.precedes key = true) ∧
      ∀ reply, (next reply).Ascends (r.heldAfter taken)

theorem LockFree.ascends (h : p.LockFree) (taken : List LockKey) : p.Ascends taken := by
  induction p generalizing taken with
  | done o => trivial
  | ask r next ih =>
    refine ⟨?_, fun reply => ih reply (h.2 reply) _⟩
    rintro key rfl
    exact absurd h.1 id

/-- Taking ascending keys that come behind all that are taken. -/
theorem ascends_takeLocks {f : Unit → Program α} (hf : (f ()).LockFree) {keys taken : List LockKey}
    (hkeys : keys.Pairwise fun a b => a.precedes b = true)
    (htaken : ∀ k ∈ taken, ∀ key ∈ keys, k.precedes key = true) :
    ((takeLocks keys).bind f).Ascends taken := by
  induction keys generalizing taken with
  | nil => exact hf.ascends taken
  | cons key keys ih =>
    obtain ⟨hfirst, hrest⟩ := List.pairwise_cons.1 hkeys
    refine ⟨?_, fun _ => ih hrest fun k hk key' hkey' => ?_⟩
    · rintro _ ⟨⟩ k hk
      exact htaken k hk key List.mem_cons_self
    · rcases List.mem_cons.1 hk with rfl | hk
      · exact hfirst key' hkey'
      · exact htaken k hk key' (List.mem_cons_of_mem _ hkey')

theorem AcquiresOnce.ascends (h : p.AcquiresOnce) : p.Ascends [] := by
  induction h with
  | never free => exact free.ascends []
  | @later r next looks _ ih =>
    refine ⟨fun _ _ _ hk => absurd hk List.not_mem_nil, fun reply => ?_⟩
    cases r with
    | lock => exact absurd looks id
    | _ => exact ih reply
  | now keys free =>
    exact ascends_takeLocks free (LockKey.pairwise_schedule keys) fun _ hk =>
      absurd hk List.not_mem_nil

end Paybook.Program
