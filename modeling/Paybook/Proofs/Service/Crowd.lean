import Mathlib.Data.Fintype.Basic
import Mathlib.Logic.Function.Basic
import Paybook.Proofs.Service.Ledger

/-! # Calls side by side

A crowd is a world with callers in the middle of their calls. One request of one caller is one step;
a lock is only granted while nobody has it, and is given back when the call returns. Whatever the
order of steps, callers with a lock in common are never inside together, and every write is one
that its caller may make: `Crowd.Sound`. Callers that take turns make such steps:
`Crowd.reaches_turns`. -/

namespace Paybook

open Time

/-- A caller: what is left of its call, and the locks that it has. -/
structure Caller where
  rest : Program Entry
  taken : List LockKey := []

/-- Whether a caller has taken its last lock and not yet returned. -/
def Caller.IsInside (c : Caller) : Prop := c.taken ≠ [] ∧ c.rest.LockFree

/-- The request that a program makes next, unless it has ended. -/
def Program.next? {α : Type} : Program α → Option Request
  | done _ => none
  | ask r _ => some r

theorem Program.exists_eq_ask {α : Type} {p : Program α} {r : Request} (h : p.next? = some r) :
    ∃ next, p = .ask r next := by
  cases p with
  | done o => cases h
  | ask r' next =>
    obtain rfl := Option.some.inj h
    exact ⟨next, rfl⟩

/-- Callers of one book. -/
structure Crowd (ι : Type) where
  world : World
  callers : ι → Caller

namespace Crowd

variable {ι : Type}

/-- The callers of some calls, before any of them has done anything. -/
def start (t : Terms) (w : World) (calls : ι → Call) : Crowd ι where
  world := w
  callers i := { rest := (calls i).program t }

variable [DecidableEq ι]

/-- The crowd after a caller has moved on. -/
def move (k : Crowd ι) (i : ι) (w : World) (c : Caller) : Crowd ι where
  world := w
  callers := Function.update k.callers i c

@[simp] theorem callers_move_self (k : Crowd ι) (i : ι) (w : World) (c : Caller) :
    (k.move i w c).callers i = c := Function.update_self ..

theorem callers_move_of_ne (k : Crowd ι) {i j : ι} (h : j ≠ i) (w : World) (c : Caller) :
    (k.move i w c).callers j = k.callers j := Function.update_of_ne h ..

/-- What holds of the caller that has moved on, and of the others as they are, holds of all. -/
theorem forall_callers_move {P : Caller → Prop} {k : Crowd ι} {i : ι} {w : World} {c : Caller}
    (hc : P c) (h : ∀ j, j ≠ i → P (k.callers j)) (j : ι) : P ((k.move i w c).callers j) := by
  rcases eq_or_ne j i with rfl | hj
  · rw [callers_move_self]
    exact hc
  · rw [callers_move_of_ne k hj]
    exact h j hj

/-- The steps of a crowd: a caller gets a lock that nobody has, another request of a caller is
answered, a caller returns, or something happens outside. -/
inductive Step (k : Crowd ι) : Crowd ι → Prop where
  | lock (i : ι) (key : LockKey) (next : Unit → Program Entry)
      (rest : (k.callers i).rest = .ask (.lock key) next)
      (free : ∀ j, key ∉ (k.callers j).taken) :
      k.Step (k.move i k.world ⟨next (), key :: (k.callers i).taken⟩)
  | request (i : ι) (r : Request) (next : r.Reply → Program Entry)
      (rest : (k.callers i).rest = .ask r next) (other : r.TakesNoLock) :
      k.Step (k.move i (k.world.answer r).2 ⟨next (k.world.answer r).1, (k.callers i).taken⟩)
  | leave (i : ι) (o : Outcome Entry) (rest : (k.callers i).rest = .done o) :
      k.Step (k.move i k.world ⟨.done o, []⟩)
  | user (u : User) : k.Step { k with world := k.world.registerUser u }
  | order (o : Order) : k.Step { k with world := k.world.registerOrder o }
  | time (now : Instant) : k.Step { k with world := k.world.atTime now }

/-! ## Turns -/

variable [Fintype ι]

/-- A turn of a caller, which waits while the lock that it asks for is taken. -/
def turn (k : Crowd ι) (i : ι) : Crowd ι :=
  match (k.callers i).rest with
  | .done o => k.move i k.world ⟨.done o, []⟩
  | .ask (.lock key) next =>
    if ∀ j, key ∉ (k.callers j).taken then
      k.move i k.world ⟨next (), key :: (k.callers i).taken⟩
    else k
  | .ask r next =>
    k.move i (k.world.answer r).2 ⟨next (k.world.answer r).1, (k.callers i).taken⟩

/-- The crowd after some turns. -/
def turns (k : Crowd ι) (is : List ι) : Crowd ι := is.foldl turn k

theorem reaches_turn (k : Crowd ι) (i : ι) : Relation.ReflTransGen Step k (k.turn i) := by
  unfold turn
  split
  · next o hrest => exact .single (.leave i o hrest)
  · next key next hrest =>
    split
    · next hfree => exact .single (.lock i key next hrest hfree)
    · exact .refl
  · next r next hlock hrest =>
    refine .single (.request i r next hrest ?_)
    cases r with
    | lock key => exact hlock key next rfl .rfl
    | _ => trivial

/-- Turns are made of steps. -/
theorem reaches_turns (k : Crowd ι) (is : List ι) :
    Relation.ReflTransGen Step k (k.turns is) := by
  induction is generalizing k with
  | nil => exact .refl
  | cons i is ih => exact (k.reaches_turn i).trans (ih (k.turn i))

end Crowd

/-! ## What holds at all times -/

/-- Whether what is left of a call is safe from a store on, with the locks that the caller has. -/
structure Caller.Sound (c : Caller) (s : Store) : Prop where
  secures : c.rest.Secures c.taken .any s
  locksFirst : c.rest.LocksFirst

theorem Caller.Sound.aside {c : Caller} {s s' : Store} (h : c.Sound s) (ha : s.Aside c.taken s') :
    c.Sound s' := ⟨h.secures.aside ha, h.locksFirst⟩

/-- A request leaves the entries alone that are not under the locks of its caller. -/
theorem Request.Allowed.aside_answer {held others : List LockKey} {r : Request}
    {P : r.Reply → Store → Prop} {w : World} (hw : w.Calm) (h : r.Allowed held w.store P)
    (ho : ∀ k ∈ others, k ∉ held) : w.store.Aside others (w.answer r).2.store := by
  cases r with
  | get id => rw [hw.answer_get]; exact .refl _ _
  | query sel => rw [hw.answer_query]; exact .refl _ _
  | insert d =>
    rw [hw.answer_insert]
    refine ⟨(Store.Writes.insert d w.now (h.2 w.now).1).grows, fun k hk => ?_⟩
    exact Store.under_insert (fun hk' => ho k hk (h.1 k hk')) w.now
  | update e =>
    rw [hw.answer_update h.2.1]
    refine ⟨(h.2.1.writes h.2.2.1).grows, fun k hk => ?_⟩
    obtain ⟨old, hold, -, horigin, -⟩ := h.2.1
    exact Store.under_replace (e := Store.bumped e) hold horigin fun hk' => ho k hk (h.1 k hk')
  | verdict desk => cases desk <;> exact .refl _ _
  | lock | user | order | findReference | contains | clock | token => exact .refl _ _

namespace Crowd

variable {ι : Type} [DecidableEq ι] {k k' : Crowd ι} {i : ι}

/-- What holds of a crowd at all times. -/
structure Sound (k : Crowd ι) : Prop where
  calm : k.world.Calm
  orderSafe : k.world.store.OrderSafe
  apart : ∀ i j, i ≠ j → ∀ key ∈ (k.callers i).taken, key ∉ (k.callers j).taken
  sound : ∀ i, (k.callers i).Sound k.world.store

/-- A crowd stays sound when a caller moves on that is sound afterwards, gets no lock that another
one has, and leaves the entries under the locks of the others alone. -/
theorem Sound.move (h : k.Sound) {w : World} {c : Caller} (calm : w.Calm)
    (orderSafe : w.store.OrderSafe) (hc : c.Sound w.store)
    (apart : ∀ j, j ≠ i → ∀ key ∈ c.taken, key ∉ (k.callers j).taken)
    (aside : ∀ j, j ≠ i → k.world.store.Aside (k.callers j).taken w.store) :
    (k.move i w c).Sound where
  calm := calm
  orderSafe := orderSafe
  apart j j' hne key hkey hkey' := by
    rcases eq_or_ne j i with rfl | hj
    · rw [callers_move_self] at hkey
      rw [callers_move_of_ne k hne.symm] at hkey'
      exact apart j' hne.symm key hkey hkey'
    · rw [callers_move_of_ne k hj] at hkey
      rcases eq_or_ne j' i with rfl | hj'
      · rw [callers_move_self] at hkey'
        exact apart j hj key hkey' hkey
      · rw [callers_move_of_ne k hj'] at hkey'
        exact h.apart j j' hne key hkey hkey'
  sound := forall_callers_move (P := fun c => c.Sound w.store) hc fun j hj =>
    (h.sound j).aside (aside j hj)

/-- Every step keeps a crowd sound. -/
theorem Sound.step (h : k.Sound) (hs : k.Step k') : k'.Sound := by
  cases hs with
  | lock i key next rest free =>
    have hi := h.sound i
    refine h.move h.calm h.orderSafe ⟨?_, ?_⟩ ?_ fun j _ => .refl _ _
    · have := hi.secures
      rw [rest] at this
      exact this _ (.refl _ _)
    · have := hi.locksFirst
      rw [rest] at this
      exact this.1 ()
    · intro j hj key' hkey'
      rcases List.mem_cons.1 hkey' with rfl | hkey'
      · exact free j
      · exact h.apart i j hj.symm key' hkey'
  | request i r next rest other =>
    have hsec := (h.sound i).secures
    have hlocks := (h.sound i).locksFirst
    rw [rest] at hsec hlocks
    have hallowed := hsec _ (.refl _ _)
    obtain ⟨hnext, hcalm, hwrites⟩ := hallowed.answer h.calm
    refine h.move hcalm ?_ ⟨?_, hlocks.1 _⟩ (fun j hj => h.apart i j hj.symm) fun j hj => ?_
    · exact Store.Written.orderSafe hwrites.to_reflTransGen h.orderSafe
    · cases r with
      | lock => exact absurd other id
      | _ => exact hnext
    · -- What the others rely on is under their own locks, and the caller has none of these.
      exact hallowed.aside_answer h.calm fun key hkey hkey' => h.apart i j hj.symm key hkey' hkey
  | leave i o rest =>
    refine h.move h.calm h.orderSafe ⟨fun _ _ => trivial, trivial⟩ ?_ fun j _ => .refl _ _
    intro j _ key hkey
    exact absurd hkey List.not_mem_nil
  | user | order | time => exact ⟨h.calm, h.orderSafe, h.apart, h.sound⟩

theorem Sound.reaches (h : k.Sound) (hr : Relation.ReflTransGen Step k k') : k'.Sound := by
  induction hr with
  | refl => exact h
  | tail _ hs ih => exact ih.step hs

omit [DecidableEq ι] in
theorem sound_start {t : Terms} {w : World} (hw : w.Calm) (hs : w.store.OrderSafe)
    (calls : ι → Call) : (start t w calls).Sound where
  calm := hw
  orderSafe := hs
  apart _ _ _ _ hkey := absurd hkey List.not_mem_nil
  sound i := ⟨((calls i).safe t).secures [] w.store, ((calls i).safe t).locksFirst⟩

omit [DecidableEq ι] in
/-- A caller in a sound crowd that is about to write is inside. -/
theorem Sound.isInside (h : k.Sound) {r : Request} {next : r.Reply → Program Entry}
    (hr : (k.callers i).rest = .ask r next) (hw : r.Writes) {key : LockKey}
    (hkey : key ∈ (k.callers i).taken) : (k.callers i).IsInside := by
  have hlocks := (h.sound i).locksFirst
  rw [hr] at hlocks
  refine ⟨List.ne_nil_of_mem hkey, ?_⟩
  rw [hr]
  refine ⟨?_, hlocks.2 hw⟩
  cases r with
  | lock => exact absurd hw id
  | _ => trivial

/-- However calls on a ledger interleave: no two callers have a lock in common, every write is made
inside and under the locks of the user and of the order of its entry, every update succeeds, and no
order has two completed payments or two completed refunds. Locks are kept until a caller leaves, so
that calls which lock a common user or order are never inside together. -/
theorem isolated (t : Terms) (w : World) (es : List Event) (calls : ι → Call) {k : Crowd ι}
    (hk : Relation.ReflTransGen Step (start t ((w.withStore .empty).after t es) calls) k) :
    (∀ i j, i ≠ j → ∀ key ∈ (k.callers i).taken, key ∉ (k.callers j).taken) ∧
    (∀ i d next, (k.callers i).rest = .ask (.insert d) next →
      (k.callers i).IsInside ∧ .user d.user ∈ (k.callers i).taken ∧
        ∀ o, d.order = some o → .order o ∈ (k.callers i).taken) ∧
    (∀ i e next, (k.callers i).rest = .ask (.update e) next →
      (k.callers i).IsInside ∧ .user e.user ∈ (k.callers i).taken ∧
        (∀ o, e.order = some o → .order o ∈ (k.callers i).taken) ∧
        (k.world.answer (.update e)).1 = .ok (Store.bumped e)) ∧
    ∀ order, (k.world.store.query (Payment.doneFor order .payment)).length ≤ 1 ∧
      (k.world.store.query (Payment.doneFor order .refund)).length ≤ 1 := by
  obtain ⟨hcalm, hwritten⟩ := World.written_after (t := t) (w.calm_withStore .empty) es
  have hsound := (sound_start hcalm (hwritten.orderSafe .empty) calls).reaches hk
  refine ⟨hsound.apart, fun i d next hrest => ?_, fun i e next hrest => ?_, fun order => ?_⟩
  · have hsec := (hsound.sound i).secures
    rw [hrest] at hsec
    obtain ⟨hkeys, -⟩ := hsec _ (.refl _ _)
    have huser := hkeys (.user d.user) List.mem_cons_self
    refine ⟨hsound.isInside hrest trivial huser, huser, fun o ho => ?_⟩
    exact hkeys _ (by simp [Draft.keys, ho])
  · have hsec := (hsound.sound i).secures
    rw [hrest] at hsec
    obtain ⟨hkeys, hfollows, -⟩ := hsec _ (.refl _ _)
    have huser := hkeys _ e.user_mem_keys
    refine ⟨hsound.isInside hrest trivial huser, huser, fun o ho => ?_, ?_⟩
    · exact hkeys _ (Entry.order_mem_keys ho)
    · rw [hsound.calm.answer_update hfollows]
  · exact ⟨hsound.orderSafe.once order .payment (by simp [EntryKind.ofOrder]),
      hsound.orderSafe.once order .refund (by simp [EntryKind.ofOrder])⟩

/-- Two callers have seen an order unpaid and pay it out of one wallet. One of them has taken the
money and is about to complete the payment, and the other one waits for the order. -/
theorem isolated_after_first_lock :
    let v := ((World.opening {} 0 ⟨0, 0⟩ fun _ => 0).withStore .empty).after {}
      [.user ⟨1, "Ada"⟩, .order ⟨7, 1, .ofWord 4, "PENDING"⟩,
        .call (.charge 1 (.ofWord 10) .adminCredit "")]
    let k := (start {} v fun _ => .pay 1 7 .wallet).turns ([false, false] ++ List.replicate 13 true)
    let e : Entry := ⟨2, 1, some 7, ⟨.ofWord 4, by decide⟩, .payment, .completed, .wallet,
      some "WALLET-3", "Payment for order #7", ⟨0, 0⟩, ⟨0, 0⟩, some ⟨0, 0⟩, 0⟩
    Relation.ReflTransGen Step (start {} v fun _ => .pay 1 7 .wallet) k ∧
    ((∃ next, (k.callers true).rest = .ask (.update e) next) ∧ (k.callers true).IsInside ∧
      .user 1 ∈ (k.callers true).taken ∧ .order 7 ∈ (k.callers true).taken ∧
      (k.world.answer (.update e)).1 = .ok (Store.bumped e)) ∧
    ((∃ next, (k.callers false).rest = .ask (.lock (.order 7)) next) ∧
      .order 7 ∉ (k.callers false).taken) := by
  intro v k e
  have hk : Relation.ReflTransGen Step (start {} v fun _ => .pay 1 7 .wallet) k := reaches_turns _ _
  obtain ⟨hapart, -, hupdates, -⟩ := isolated {} _ _ _ hk
  obtain ⟨next, hwrites⟩ : ∃ next, (k.callers true).rest = .ask (.update e) next :=
    Program.exists_eq_ask (by decide +kernel)
  have hwaits : ∃ next, (k.callers false).rest = .ask (.lock (.order 7)) next :=
    Program.exists_eq_ask (by decide +kernel)
  obtain ⟨hinside, huser, horders, hanswer⟩ := hupdates true e next hwrites
  have horder := horders 7 rfl
  exact ⟨hk, ⟨⟨next, hwrites⟩, hinside, huser, horder, hanswer⟩, hwaits,
    hapart true false (by decide) _ horder⟩

end Crowd

end Paybook
