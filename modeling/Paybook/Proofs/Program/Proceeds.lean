import Paybook.Proofs.Program.Leads

/-! # Programs that do not stop

A program stops when a number outgrows its range. It `Proceeds` in a world if it does not stop there
before it has changed anything, and a check that proceeds is one that is decided. -/

namespace Paybook.Program

variable {α β : Type} {p : Program α} {w : World}

/-- Whether a program that runs alone does not stop before it has changed anything. -/
def Proceeds (p : Program α) (w : World) : Prop := p.run w ≠ (.overflowed, w)

/-- Whether a program is a check that does not stop. -/
structure Clears (p : Program α) (w : World) : Prop where
  vets : p.Vets
  proceeds : p.Proceeds w

theorem Clears.not_overflowed (h : p.Clears w) (hw : w.Calm) : (p.run w).1 ≠ .overflowed :=
  fun ho => h.proceeds (Prod.ext ho (h.vets.run hw).1)

/-- What comes behind a check proceeds if the check does. -/
theorem Clears.proceeds_bind {f : α → Program β} (h : p.Clears w) (hw : w.Calm)
    (hf : ∀ a, (p.run w).1 = .returned a → (f a).Proceeds w) : (p >>= f).Proceeds w := by
  have hstill := (h.vets.run hw).1
  have hgoes := h.not_overflowed hw
  rcases hrun : p.run w with ⟨o, w'⟩
  rw [hrun] at hstill hgoes hf
  obtain rfl : w' = w := hstill
  cases o with
  | returned a =>
    rw [Proceeds, run_bind_of_run hrun]
    exact hf a rfl
  | failed e =>
    change (p.bind f).run w' ≠ _
    rw [run_bind, hrun]
    rintro ⟨⟩
  | overflowed => exact absurd rfl hgoes

theorem Clears.bind {f : α → Program β} (h : p.Clears w) (hw : w.Calm) (hf : ∀ a, (f a).Vets)
    (hnext : ∀ a, (p.run w).1 = .returned a → (f a).Proceeds w) : (p >>= f).Clears w :=
  ⟨h.vets.bind hf, h.proceeds_bind hw hnext⟩

/-! ## The steps of programs -/

theorem proceeds_pure (a : α) : (pure a : Program α).Proceeds w := by
  rintro ⟨⟩

theorem proceeds_require (c : Bool) (e : Failure) : (require c e).Proceeds w := by
  cases c <;> rintro ⟨⟩

theorem proceeds_ofAttempt (x : Attempt α) : (ofAttempt x).Proceeds w := by
  cases x <;> rintro ⟨⟩

theorem proceeds_require_bind {c : Bool} {e : Failure} {f : Unit → Program β}
    (h : c = true → (f ()).Proceeds w) : (require c e >>= f).Proceeds w := by
  cases c with
  | true => exact h rfl
  | false => rintro ⟨⟩

theorem proceeds_ofAttempt_bind {x : Attempt α} {f : α → Program β}
    (h : ∀ a, x = .ok a → (f a).Proceeds w) : (ofAttempt x >>= f).Proceeds w := by
  cases x with
  | ok a => exact h a rfl
  | error e => rintro ⟨⟩

theorem proceeds_inRange {x : Option α} (h : ∃ a, x = some a) : (inRange x).Proceeds w := by
  obtain ⟨a, rfl⟩ := h
  exact proceeds_pure a

/-- Locks are free to a program that runs alone. -/
theorem proceeds_acquire {keys : List LockKey} {f : Unit → Program α} (h : (f ()).Proceeds w) :
    (acquire keys >>= f).Proceeds w := by
  rw [Proceeds, (leads_acquire keys f).run_eq]
  exact h

theorem clears_request {r : Request} (h : r.Reads) (hb : ∀ f, r.broken? f = none) :
    (request r).Clears w := by
  refine ⟨vets_request h hb, fun hrun => ?_⟩
  cases congrArg Prod.fst hrun

theorem clears_select (hw : w.Calm) (sel : Selection) : (select sel).Clears w := by
  refine ⟨vets_select sel, ?_⟩
  rw [Proceeds, run_select hw]
  rintro ⟨⟩

theorem clears_load (hw : w.Calm) (id : Nat) : (load id).Clears w := by
  refine ⟨vets_load id, ?_⟩
  rw [Proceeds, run_load hw]
  cases w.store.get? id <;> rintro ⟨⟩

end Paybook.Program
