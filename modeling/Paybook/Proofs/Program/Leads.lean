import Paybook.Proofs.Program.Vets
import Paybook.Proofs.Service.Calm

/-! # What is left of a program after its checks

A program that runs alone comes past its checks to what it is made for. `Program.Leads` says that it
has come to another program without having changed anything. A check in front of a program leads to
what the program does with the value that the check ends with: `Vets.leads`. -/

namespace Paybook

variable {α β : Type} {w : World}

/-- A reading request is answered by a calm world, which it leaves as it is. -/
theorem Request.Reads.answer {r : Request} (h : r.Reads) (hw : w.Calm) :
    (w.answer r).2 = w ∧ ∀ f, r.broken? f ≠ some (w.answer r).1 := by
  cases r with
  | lock | insert | update | verdict | token => exact absurd h id
  | get id =>
    rw [hw.answer_get]
    exact ⟨rfl, fun f hf => by cases hf⟩
  | query sel =>
    rw [hw.answer_query]
    exact ⟨rfl, fun f hf => by cases hf⟩
  | user | order | findReference | contains | clock => exact ⟨rfl, fun f hf => by cases hf⟩

namespace Program

variable {p q : Program α}

theorem run_ask (r : Request) (next : r.Reply → Program α) (w : World) :
    (ask r next).run w = (next (w.answer r).1).run (w.answer r).2 := rfl

/-- A program goes on as what follows the value that its first part returns. -/
theorem run_bind_of_run {p : Program α} {f : α → Program β} {w' : World} {a : α}
    (h : p.run w = (.returned a, w')) : (p >>= f).run w = (f a).run w' := by
  change (p.bind f).run w = _
  rw [run_bind, h]

/-- Whether a program comes to another one by requests that leave the world as it is, and fails at
once when one of them is not answered. -/
inductive Leads (w : World) : Program α → Program α → Prop
  | refl (p : Program α) : Leads w p p
  | ask {r : Request} {next : r.Reply → Program α} {q : Program α}
      (still : (w.answer r).2 = w)
      (broken : ∀ f reply, r.broken? f = some reply → next reply = fail f)
      (rest : Leads w (next (w.answer r).1) q) : Leads w (.ask r next) q

/-- A check ends where it started, and fails by refusing. -/
theorem Vets.run (h : p.Vets) (hw : w.Calm) :
    (p.run w).2 = w ∧ ∀ f, (p.run w).1 = .failed f → f.IsRefusal := by
  induction p with
  | done o => exact ⟨rfl, h⟩
  | ask r next ih =>
    obtain ⟨hstill, hanswered⟩ := h.1.answer hw
    rw [run_ask, hstill]
    exact ih _ (h.2.2 _ hanswered)

/-- A check in front of a program. -/
theorem Vets.leads (h : p.Vets) (hw : w.Calm) (f : α → Program β) :
    Leads w (p >>= f) (done (p.run w).1 >>= f) := by
  induction p with
  | done o => exact .refl _
  | ask r next ih =>
    obtain ⟨hstill, hanswered⟩ := h.1.answer hw
    refine .ask hstill (fun e reply hreply => ?_) ?_
    · rw [h.2.1 e reply hreply]
      rfl
    · rw [run_ask, hstill]
      exact ih _ (h.2.2 _ hanswered)

/-- A check that is passed leads to what comes behind it. -/
theorem Vets.leads_of_run {f : α → Program β} (h : p.Vets) (hw : w.Calm) {a : α}
    (hrun : (p.run w).1 = .returned a) : Leads w (p >>= f) (f a) := by
  have hl := h.leads hw f
  rw [hrun] at hl
  exact hl

theorem Leads.trans {r : Program α} (h : Leads w p q) (h' : Leads w q r) : Leads w p r := by
  induction h with
  | refl p => exact h'
  | ask still broken _ ih => exact .ask still broken (ih h')

theorem Leads.run_eq (h : Leads w p q) : p.run w = q.run w := by
  induction h with
  | refl p => rfl
  | ask still _ _ ih => rw [run_ask, still, ih]

/-! ## What returns -/

/-- What comes behind a check starts where the check did. -/
theorem Vets.run_bind_eq_returned {f : α → Program β} {b : β} (h : p.Vets) (hw : w.Calm) :
    ((p >>= f).run w).1 = .returned b ↔
      ∃ a, (p.run w).1 = .returned a ∧ ((f a).run w).1 = .returned b := by
  change ((p.bind f).run w).1 = _ ↔ _
  have hstill := (h.run hw).1
  rw [Program.run_bind]
  rcases hrun : p.run w with ⟨o, w'⟩
  rw [hrun] at hstill
  obtain rfl : w' = w := hstill
  cases o <;> simp

theorem run_require_eq_returned {c : Bool} {e : Failure} :
    ((require c e).run w).1 = .returned () ↔ c = true := by
  cases c <;> simp [require, pure, fail, Program.run]

theorem run_inRange_eq_returned {x : Option α} {a : α} :
    ((inRange x).run w).1 = .returned a ↔ x = some a := by
  cases x <;> simp [inRange, pure, Program.run]

theorem run_ofAttempt_eq_returned {x : Attempt α} {a : α} :
    ((ofAttempt x).run w).1 = .returned a ↔ x = .ok a := by
  cases x <;> simp [ofAttempt, pure, fail, Program.run]

theorem run_load (hw : w.Calm) (id : Nat) :
    (load id).run w = (match w.store.get? id with
      | some e => .returned e
      | none => .failed (.notFound s!"Transaction {id} not found"), w) := by
  change ((ofAttempt (w.answer (.get id)).1).bind _).run (w.answer (.get id)).2 = _
  rw [hw.answer_get]
  cases w.store.get? id <;> rfl

theorem run_load_eq_returned (hw : w.Calm) {id : Nat} {e : Entry} :
    ((load id).run w).1 = .returned e ↔ w.store.get? id = some e := by
  rw [run_load hw]
  cases w.store.get? id <;> simp

/-- Locks are free to a program that runs alone. -/
theorem leads_acquire (keys : List LockKey) (f : Unit → Program β) :
    Leads w (acquire keys >>= f) (f ()) := by
  change Leads w ((takeLocks _).bind f) _
  induction LockKey.schedule keys with
  | nil => exact .refl _
  | cons key keys ih => exact .ask rfl (fun _ _ h => by cases h) ih

end Program

end Paybook
