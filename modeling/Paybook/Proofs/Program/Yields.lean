import Paybook.Proofs.Program.Requests
import Paybook.Proofs.Service.Calm
import Paybook.Proofs.Store.Worth

/-! # Programs that run alone

`Program.Yields` says what holds at the end of a program that runs alone, with one rule for each way
in which programs are put together and one for each step that the services share. What the steps
do to wallets is said by `World.Moved`: one wallet gains or loses an amount, and the others are left
as they are. -/

namespace Paybook

namespace World

variable {w w' w'' : World} {user : Nat} {x : ℚ}

/-- A calm world with the same entries and orders. -/
structure Alike (w w' : World) : Prop where
  calm : w'.Calm
  store : w'.store = w.store
  orders : w'.orders = w.orders

theorem Alike.refl (hw : w.Calm) : w.Alike w := ⟨hw, rfl, rfl⟩

theorem Alike.trans (h : w.Alike w') (h' : w'.Alike w'') : w.Alike w'' :=
  ⟨h'.calm, h'.store.trans h.store, h'.orders.trans h.orders⟩

/-- What an answer that does not touch entries leaves alike. -/
theorem Alike.answer (hw : w.Calm) {r : Request} (hr : r.Looks) : w.Alike (w.answer r).2 := by
  cases r with
  | lock | insert | update => exact absurd hr id
  | get id => rw [hw.answer_get]; exact .refl hw
  | query sel => rw [hw.answer_query]; exact .refl hw
  | verdict desk => cases desk <;> exact ⟨hw, rfl, rfl⟩
  | user | order | findReference | contains | clock | token => exact ⟨hw, rfl, rfl⟩

/-- A calm world in which the wallet of a user is worth so much more, and the other wallets are
worth the same. -/
structure Moved (w : World) (user : Nat) (x : ℚ) (w' : World) : Prop where
  calm : w'.Calm
  worth : ∀ u, w'.store.worth u = w.store.worth u + if u = user then x else 0

theorem Alike.moved (h : w.Alike w') (user : Nat) : w.Moved user 0 w' :=
  ⟨h.calm, fun u => by rw [h.store, ite_self, add_zero]⟩

theorem Moved.of_zero (h : w.Moved user 0 w') (user' : Nat) : w.Moved user' 0 w' :=
  ⟨h.calm, fun u => by rw [h.worth, ite_self, ite_self]⟩

/-- A movement after one of nothing. -/
theorem Moved.zero_trans (h : w.Moved user 0 w') (h' : w'.Moved user x w'') :
    w.Moved user x w'' :=
  ⟨h'.calm, fun u => by rw [h'.worth, h.worth, ite_self, add_zero]⟩

end World

namespace Program

variable {α β : Type} {p : Program α} {w : World}

/-- Whether a condition holds of the end of a program that runs alone. -/
def Yields (p : Program α) (w : World) (Q : Outcome α → World → Prop) : Prop :=
  Q (p.run w).1 (p.run w).2

theorem Yields.mono {Q Q' : Outcome α → World → Prop} (h : p.Yields w Q)
    (hQ : ∀ o w', Q o w' → Q' o w') : p.Yields w Q' := hQ _ _ h

theorem yields_bind {f : α → Program β} {Q : Outcome β → World → Prop}
    (h : p.Yields w fun
      | .returned a, w' => (f a).Yields w' Q
      | .failed e, w' => Q (.failed e) w'
      | .overflowed, w' => Q .overflowed w') : (p >>= f).Yields w Q := by
  unfold Yields at h ⊢
  change Q ((p.bind f).run w).1 ((p.bind f).run w).2
  rw [run_bind]
  rcases hrun : p.run w with ⟨o, w'⟩
  rw [hrun] at h
  cases o <;> exact h

theorem yields_onFailure {handle : Failure → Program α} {Q : Outcome α → World → Prop}
    (h : p.Yields w fun
      | .failed e, w' => (handle e).Yields w' Q
      | o, w' => Q o w') : (p.onFailure handle).Yields w Q := by
  unfold Yields at h ⊢
  rw [run_onFailure]
  rcases hrun : p.run w with ⟨o, w'⟩
  rw [hrun] at h
  cases o <;> exact h

/-- Whether a condition holds of every end but a return in a world that is alike. -/
def Lenient (Q : Outcome α → World → Prop) (w : World) : Prop :=
  ∀ o w', w.Alike w' → (∀ a, o ≠ .returned a) → Q o w'

theorem Looks.alike_run (h : p.Looks) (hw : w.Calm) : w.Alike (p.run w).2 := by
  induction p generalizing w with
  | done o => exact .refl hw
  | ask r next ih =>
    have ha := World.Alike.answer hw h.1
    exact ha.trans (ih _ (h.2 _) ha.calm)

/-- A program that only looks in front of another one. -/
theorem Looks.yields_bind {f : α → Program β} {Q : Outcome β → World → Prop} (h : p.Looks)
    (hw : w.Calm) (hl : Lenient Q w)
    (hf : ∀ a w', p.run w = (.returned a, w') → w.Alike w' → (f a).Yields w' Q) :
    (p >>= f).Yields w Q := by
  have ha := h.alike_run hw
  refine Program.yields_bind ?_
  unfold Yields
  rcases hrun : p.run w with ⟨o, w'⟩
  rw [hrun] at ha
  cases o with
  | returned a => exact hf a w' hrun ha
  | failed e => exact hl _ w' ha fun _ h => by cases h
  | overflowed => exact hl _ w' ha fun _ h => by cases h

theorem yields_request {r : Request} {f : r.Reply → Program β} {Q : Outcome β → World → Prop}
    (h : (f (w.answer r).1).Yields (w.answer r).2 Q) : (request r >>= f).Yields w Q := h

theorem yields_acquire {keys : List LockKey} {f : Unit → Program β} {Q : Outcome β → World → Prop}
    (h : (f ()).Yields w Q) : (acquire keys >>= f).Yields w Q := by
  change ((takeLocks _).bind f).Yields w Q
  induction LockKey.schedule keys with
  | nil => exact h
  | cons key keys ih => exact ih

/-! ## Writes -/

/-- What is stored of a changed entry moves the money of the entry if the change completes it. -/
theorem movesTo_result {c : Change} {e : Entry} {now : Time.Instant} (hp : e.status = .pending)
    (u : Nat) : (Store.bumped (c.result e now)).movesTo u =
      if u = e.user then (if c.status? = some .completed then e.moved else 0) else 0 := by
  have hcompleted : (c.result e now).status = .completed ↔ c.status? = some .completed := by
    rw [Change.status_result, hp]
    cases c.status? <;> simp
  have ho := c.origin_result e now
  have hmoved : (Store.bumped (c.result e now)).moved = e.moved := by
    rw [Entry.moved, Entry.moved]
    exact congrArg₂ EntryKind.signed (Entry.kind_eq_of_origin ho) (Entry.amount_eq_of_origin ho)
  have huser : (Store.bumped (c.result e now)).user = e.user := Entry.user_eq_of_origin ho
  simp only [Entry.movesTo, Entry.status_bumped, hcompleted, hmoved, huser]
  by_cases hu : u = e.user
  · simp [hu]
  · rw [if_neg hu, if_neg fun h => hu h.1.symm]

/-- An entry that is changed in the store moves its money if it is completed. -/
theorem moved_replace {c : Change} {e : Entry} (hp : e.status = .pending)
    (hf : w.store.Follows e) (now : Time.Instant) :
    w.Moved e.user (if c.status? = some .completed then e.moved else 0)
      (w.withStore (w.store.replace (Store.bumped (c.result e now)))) := by
  refine ⟨w.calm_withStore _, fun u => ?_⟩
  obtain ⟨old, hold, hpending, -, -⟩ :=
    hf.of_origin (c.origin_result e now) (c.version_result e now)
  rw [World.store_withStore, Store.worth_replace (e := Store.bumped (c.result e now)) hold,
    Entry.movesTo_of_not_completed (by simp [hpending]), sub_zero, movesTo_result hp]

theorem yields_change {c : Change} {e : Entry} {f : Entry → Program β}
    {Q : Outcome β → World → Prop} (hp : e.status = .pending)
    (h : (f (c.result e w.now)).Yields w Q) : (change c e >>= f).Yields w Q := by
  change ((ofAttempt (c.apply e w.now)).bind f).Yields w Q
  rw [Change.apply_eq_ok.2 ⟨hp, rfl⟩]
  exact h

/-- An entry that is amended moves its money if it is completed, and leaves the other entries as
they are. -/
theorem yields_amend {c : Change} {e : Entry} {Q : Outcome Entry → World → Prop} (hw : w.Calm)
    (hp : e.status = .pending) (hf : w.store.Follows e)
    (h : ∀ e' w', w.Moved e.user (if c.status? = some .completed then e.moved else 0) w' →
      (∀ id x, id ≠ e.id → w.store.get? id = some x → w'.store.get? id = some x) →
      Q (.returned e') w') : (change c e >>= update).Yields w Q := by
  have ho := c.origin_result e w.now
  refine yields_change hp (yields_request (r := .update _) ?_)
  rw [hw.answer_update (hf.of_origin ho (c.version_result e w.now))]
  refine h _ _ (moved_replace hp hf w.now) ?_
  intro id x hid hx
  change (w.store.replace _).get? id = some x
  rw [Store.get?_replace, Entry.id_bumped, Entry.id_eq_of_origin ho, if_neg hid]
  exact hx

theorem yields_complete {e : Entry} {reference : String} {Q : Outcome Entry → World → Prop}
    (hw : w.Calm) (hp : e.status = .pending) (hf : w.store.Follows e)
    (h : ∀ e' w', w.Moved e.user e.moved w' →
      (∀ id x, id ≠ e.id → w.store.get? id = some x → w'.store.get? id = some x) →
      Q (.returned e') w') : (complete e reference).Yields w Q :=
  yields_amend hw hp hf h

theorem yields_completeFreshly {e : Entry} {word : String} {Q : Outcome Entry → World → Prop}
    (hw : w.Calm) (hp : e.status = .pending) (hf : w.store.Follows e)
    (h : ∀ e' w', w.Moved e.user e.moved w' →
      (∀ id x, id ≠ e.id → w.store.get? id = some x → w'.store.get? id = some x) →
      Q (.returned e') w') : (completeFreshly e word).Yields w Q := by
  -- A token is taken first, which touches no entry.
  change (complete e _).Yields (w.answer .token).2 Q
  exact yields_complete (w := (w.answer .token).2) hw hp hf fun e' w' hm =>
    h e' w' ⟨hm.calm, hm.worth⟩

/-- Giving an entry up moves no money. -/
theorem yields_abandon {id : Nat} {f : Failure} {Q : Outcome Entry → World → Prop} (hw : w.Calm)
    (h : ∀ user w', w.Moved user 0 w' → Q (.failed f) w') : (abandon id f).Yields w Q := by
  have hstill : (fail f).Yields w Q := h 0 w ((World.Alike.refl hw).moved 0)
  refine yields_request ?_
  rw [hw.answer_get]
  cases hget : w.store.get? id with
  | none => exact hstill
  | some e =>
    change Yields (if e.isFinal then fail f else _) w Q
    split
    · exact hstill
    · next hfinal =>
      have hp : e.status = .pending := Entry.isFinal_eq_false.1 (by simpa using hfinal)
      have hf : w.store.Follows e := ⟨e, by rw [(Store.get?_eq_some.1 hget).2, hget], hp, rfl, rfl⟩
      have happly : e.fail f.detail (w.answer .clock).1 =
          .ok ((Change.fail f.detail).result e w.now) :=
        Change.apply_eq_ok (c := .fail f.detail).2 ⟨hp, rfl⟩
      refine yields_request (r := .clock) ?_
      simp only [happly]
      have hf' : w.store.Follows ((Change.fail f.detail).result e w.now) := hf.of_origin rfl rfl
      change (fail f).Yields (w.answer (.update ((Change.fail f.detail).result e w.now))).2 Q
      rw [hw.answer_update hf']
      exact h e.user _ (moved_replace (c := .fail f.detail) hp hf w.now)

/-- A new entry is pending, moves no money, and leaves the other entries as they are. -/
theorem yields_book {d : Draft} {Q : Outcome Entry → World → Prop} (hw : w.Calm)
    (h : ∀ id now w', w'.store.get? id = some (.ofDraft id d now) → w.Moved d.user 0 w' →
      (∀ id' x, w.store.get? id' = some x → id' ≠ id ∧ w'.store.get? id' = some x) →
      Q (.returned (.ofDraft id d now)) w') : (book d).Yields w Q := by
  refine yields_request ?_
  rw [hw.answer_insert]
  refine h _ w.now _ ?_ ⟨w.calm_withStore _, fun u => ?_⟩ fun id x hx => ?_
  · exact (w.store.get?_insert d w.now _).trans (if_pos rfl)
  · rw [ite_self, add_zero]
    exact w.store.worth_insert d w.now u
  · obtain ⟨hmem, rfl⟩ := Store.get?_eq_some.1 hx
    have hne : x.id ≠ w.store.lastId + 1 := by
      have := w.store.id_le x hmem
      omega
    exact ⟨hne, ((w.store.get?_insert d w.now _).trans (if_neg hne)).trans hx⟩

/-! ## Moves -/

/-- Whether a program moves an amount into the wallet of a user when it returns, and nothing
otherwise. -/
def Moves (w : World) (user : Nat) (x : ℚ) : Outcome α → World → Prop
  | .returned _, w' => w.Moved user x w'
  | _, w' => w.Moved user 0 w'

variable {user : Nat} {x : ℚ}

theorem Moves.lenient (w : World) (user : Nat) (x : ℚ) :
    Lenient (Moves w user x : Outcome α → World → Prop) w := by
  intro o w' ha ho
  cases o with
  | returned a => exact absurd rfl (ho a)
  | failed | overflowed => exact ha.moved user

/-- What moves an amount after nothing was moved moves that amount. -/
theorem Moves.after {o : Outcome α} {w' w'' : World} (h : Moves w' user x o w'')
    (hw : w.Moved user 0 w') : Moves w user x o w'' := by
  cases o with
  | returned a => exact World.Moved.zero_trans hw h
  | failed | overflowed => exact World.Moved.zero_trans hw h

/-- A program that only looks in front of one that moves an amount. -/
theorem Looks.moves_bind {f : α → Program β} (h : p.Looks) (hw : w.Calm)
    (hf : ∀ a w', p.run w = (.returned a, w') → w.Alike w' → (f a).Yields w' (Moves w' user x)) :
    (p >>= f).Yields w (Moves w user x) :=
  h.yields_bind hw (.lenient w user x) fun a w' hrun ha =>
    (hf a w' hrun ha).mono fun _ _ hm => hm.after (ha.moved user)

/-- An entry that is booked and brought to its end, or given up. -/
theorem moves_book_orAbandon {d : Draft} {f : Entry → Program Entry} (hw : w.Calm)
    (hf : ∀ id now w', w'.Calm → w'.store.get? id = some (.ofDraft id d now) →
      (f (.ofDraft id d now)).Yields w' (Moves w' user x)) :
    (book d >>= fun e => orAbandon e (f e)).Yields w (Moves w user x) := by
  refine yields_bind (yields_book hw fun id now w₁ hget hm _ => yields_onFailure ?_)
  have hm := hm.of_zero user
  refine (hf id now w₁ hm.calm hget).mono ?_
  intro o w₂ hend
  cases o with
  | returned | overflowed => exact hend.after hm
  | failed f =>
    have hm₂ : w.Moved user 0 w₂ := World.Moved.zero_trans hm hend
    refine yields_abandon hm₂.calm ?_
    intro user' w₃ hm₃
    exact World.Moved.zero_trans hm₂ (hm₃.of_zero user)

end Program

/-! ## Entries of wallets -/

namespace Wallet

open Program

variable {w : World} {user : Nat} {amount : Amount}

/-- An entry of a wallet that is booked and completed at once always returns. -/
theorem yields_instant {d : Draft} {word : String} {Q : Outcome Entry → World → Prop} (hw : w.Calm)
    (h : ∀ e w', w.Moved d.user (d.kind.signed d.amount) w' →
      (∀ id x, w.store.get? id = some x → w'.store.get? id = some x) → Q (.returned e) w') :
    (instant d word).Yields w Q := by
  refine yields_bind (yields_book hw fun id now w₁ hget hm hkept => yields_onFailure ?_)
  refine yields_completeFreshly hm.calm rfl ⟨_, hget, rfl, rfl, rfl⟩ ?_
  intro e w₂ hm₂ hkept₂
  refine h e w₂ (hm.zero_trans hm₂) ?_
  intro id' x hx
  obtain ⟨hne, hx₁⟩ := hkept id' x hx
  exact hkept₂ id' x hne hx₁

theorem moves_instant {d : Draft} {word : String} (hw : w.Calm) :
    (instant d word).Yields w (Moves w d.user (d.kind.signed d.amount)) :=
  yields_instant hw fun _ _ hm _ => hm

end Wallet

end Paybook
