import Paybook.Proofs.Program.Leads
import Paybook.Proofs.Program.Yields

/-! # Programs whose store fails once

`Program.Risks` says what holds at the end of a program that runs alone and, apart from that, what
holds there when one of its calls of the store fails without effect. It looks at every position of
the failure at once: at each call on the way, the failure is followed to the end of the program.
What it says is so of every store with a trouble that refuses one call: `Risks.run_troubled`. -/

namespace Paybook

/-- The world with troubles that wait for the calls of its store. -/
def World.troubled (w : World) (troubles : List Trouble) : World :=
  { w with storage := ⟨w.store, troubles⟩ }

variable {α β : Type} {w : World}

namespace Program

variable {p q : Program α} {Q Q' R R' : Outcome α → World → Prop}

/-- Whether one condition holds of the end of a program that runs alone, and another one of every
end to which the failure of one call of the store brings it. -/
def Risks : Program α → World → (Outcome α → World → Prop) → (Outcome α → World → Prop) → Prop
  | done o, w, Q, _ => Q o w
  | ask r next, w, Q, R =>
    (∀ f reply, r.broken? f = some reply → (next reply).Yields w R) ∧
      (next (w.answer r).1).Risks (w.answer r).2 Q R

theorem Risks.yields (h : p.Risks w Q R) : p.Yields w Q := by
  induction p generalizing w with
  | done o => exact h
  | ask r next ih => exact ih _ h.2

theorem Risks.mono (h : p.Risks w Q R) (hQ : ∀ o w', Q o w' → Q' o w')
    (hR : ∀ o w', R o w' → R' o w') : p.Risks w Q' R' := by
  induction p generalizing w with
  | done o => exact hQ o w h
  | ask r next ih => exact ⟨fun f reply hf => (h.1 f reply hf).mono hR, ih _ h.2⟩

/-- Nothing is at risk where every end will do. -/
theorem Yields.risks (h : p.Yields w Q) (hR : ∀ o w', R o w') : p.Risks w Q R := by
  induction p generalizing w with
  | done o => exact h
  | ask r next ih => exact ⟨fun f reply _ => hR _ _, ih _ h⟩

theorem risks_bind {f : α → Program β} {Q R : Outcome β → World → Prop}
    (h : p.Risks w
      (fun
        | .returned a, w' => (f a).Risks w' Q R
        | .failed e, w' => Q (.failed e) w'
        | .overflowed, w' => Q .overflowed w')
      (fun
        | .returned a, w' => (f a).Yields w' R
        | .failed e, w' => R (.failed e) w'
        | .overflowed, w' => R .overflowed w')) : (p >>= f).Risks w Q R := by
  change (p.bind f).Risks w Q R
  induction p generalizing w with
  | done o => cases o <;> exact h
  | ask r next ih => exact ⟨fun e reply he => yields_bind (h.1 e reply he), ih _ h.2⟩

theorem risks_onFailure {handle : Failure → Program α}
    (h : p.Risks w
      (fun
        | .failed e, w' => (handle e).Risks w' Q R
        | o, w' => Q o w')
      (fun
        | .failed e, w' => (handle e).Yields w' R
        | o, w' => R o w')) : (p.onFailure handle).Risks w Q R := by
  induction p generalizing w with
  | done o => cases o <;> exact h
  | ask r next ih => exact ⟨fun e reply he => yields_onFailure (h.1 e reply he), ih _ h.2⟩

/-- What a program leads to is as much at risk as the program, which may fail before. -/
theorem Leads.risks (h : Leads w p q) (hq : q.Risks w Q R) (hR : ∀ f, R (.failed f) w) :
    p.Risks w Q R := by
  induction h with
  | refl p => exact hq
  | ask still broken _ ih =>
    refine ⟨fun f reply hf => ?_, ?_⟩
    · rw [broken f reply hf]
      exact hR f
    · rw [still]
      exact ih hq

/-- A request that is always answered. -/
theorem risks_request {r : Request} {f : r.Reply → Program β} {Q R : Outcome β → World → Prop}
    (hr : ∀ e, r.broken? e = none) (h : (f (w.answer r).1).Risks (w.answer r).2 Q R) :
    (request r >>= f).Risks w Q R := by
  refine ⟨fun e reply he => ?_, h⟩
  rw [hr e] at he
  cases he

end Program

/-! ## Stores that refuse a call -/

/-- A trouble that refuses calls lets one pass, or refuses it and has one refusal less to make. -/
theorem TroubledStore.before_refusing {tr : Trouble} (htr : tr.effect = .refuse) (s : Store)
    (c : StoreCall) (now : Time.Instant) :
    (∃ skip, before ⟨s, [tr]⟩ c now = (.ok (), ⟨s, [{ tr with skip := skip }]⟩)) ∨
      (tr.times ≠ 0 ∧ before ⟨s, [tr]⟩ c now =
        (.error (.storage tr.text), ⟨s, [{ tr with times := tr.times - 1 }]⟩)) := by
  by_cases hmatch : tr.matches c = true
  · by_cases hskip : tr.skip = 0
    · refine .inr ⟨?_, ?_⟩
      · rintro h
        simp [Trouble.matches, h] at hmatch
      · simp [before, Trouble.strike, suffer, hmatch, hskip, htr]
    · exact .inl ⟨tr.skip - 1, by simp [before, Trouble.strike, hmatch, hskip]⟩
  · exact .inl ⟨tr.skip, by simp [before, Trouble.strike, hmatch]⟩

namespace World

/-- The same of the requests to a world. -/
theorem Calm.answer_troubled (hw : w.Calm) {tr : Trouble} (htr : tr.effect = .refuse)
    (r : Request) :
    (∃ skip, (w.troubled [tr]).answer r =
        ((w.answer r).1, (w.answer r).2.troubled [{ tr with skip := skip }])) ∨
      (tr.times ≠ 0 ∧ ∃ reply, r.broken? (.storage tr.text) = some reply ∧
        (w.troubled [tr]).answer r = (reply, w.troubled [{ tr with times := tr.times - 1 }])) := by
  obtain ⟨⟨s, troubles⟩, _, _, _, _, now, _⟩ := w
  cases hw
  cases r with
  | get id =>
    rcases TroubledStore.before_refusing htr s (.get id) now with ⟨skip, h⟩ | ⟨ht, h⟩
    · refine .inl ⟨skip, ?_⟩
      simp only [answer, troubled, TroubledStore.get, store, h, TroubledStore.before_nil]
    · refine .inr ⟨ht, _, rfl, ?_⟩
      simp only [answer, troubled, TroubledStore.get, store, h]
  | query sel =>
    rcases TroubledStore.before_refusing htr s (.query sel) now with ⟨skip, h⟩ | ⟨ht, h⟩
    · refine .inl ⟨skip, ?_⟩
      simp only [answer, troubled, TroubledStore.query, store, h, TroubledStore.before_nil]
    · refine .inr ⟨ht, _, rfl, ?_⟩
      simp only [answer, troubled, TroubledStore.query, store, h]
  | insert d =>
    rcases TroubledStore.before_refusing htr s (.insert d) now with ⟨skip, h⟩ | ⟨ht, h⟩
    · refine .inl ⟨skip, ?_⟩
      simp only [answer, troubled, TroubledStore.insert, store, h, TroubledStore.before_nil]
    · refine .inr ⟨ht, _, rfl, ?_⟩
      simp only [answer, troubled, TroubledStore.insert, store, h]
  | update e =>
    rcases TroubledStore.before_refusing htr s (.update e) now with ⟨skip, h⟩ | ⟨ht, h⟩
    · refine .inl ⟨skip, ?_⟩
      simp only [answer, troubled, TroubledStore.update, store, h, TroubledStore.before_nil]
      cases s.update e <;> rfl
    · refine .inr ⟨ht, _, rfl, ?_⟩
      simp only [answer, troubled, TroubledStore.update, store, h]
  | verdict desk => cases desk <;> exact .inl ⟨tr.skip, rfl⟩
  | lock | user | order | findReference | contains | clock | token => exact .inl ⟨tr.skip, rfl⟩

theorem Calm.answer (hw : w.Calm) (r : Request) : (w.answer r).2.Calm := by
  obtain ⟨⟨s, troubles⟩, _⟩ := w
  cases hw
  cases r with
  | update e =>
    simp only [World.answer, Calm, TroubledStore.update, TroubledStore.before_nil]
    cases s.update e <;> rfl
  | verdict desk => cases desk <;> rfl
  | lock | user | order | get | query | insert | findReference | contains | clock | token => rfl

end World

namespace Program

variable {p : Program α} {Q R : Outcome α → World → Prop} {tr : Trouble}

/-- A trouble that has no refusal left to make changes nothing. -/
theorem run_spent (hw : w.Calm) (htr : tr.effect = .refuse) (ht : tr.times = 0) :
    ∃ troubles, p.run (w.troubled [tr]) = ((p.run w).1, (p.run w).2.troubled troubles) := by
  induction p generalizing w tr with
  | done o => exact ⟨[tr], rfl⟩
  | ask r next ih =>
    rcases hw.answer_troubled htr r with ⟨skip, h⟩ | ⟨hne, -⟩
    · have hrefuse : ({ tr with skip := skip } : Trouble).effect = .refuse := htr
      obtain ⟨troubles, hrest⟩ := ih (w.answer r).1 (hw.answer r) hrefuse ht
      refine ⟨troubles, ?_⟩
      rw [run_ask, h]
      exact hrest
    · exact absurd ht hne

/-- What is said of a program whose store fails once holds of every store with a trouble that
refuses one call. -/
theorem Risks.run_troubled (h : p.Risks w Q R) (hw : w.Calm) (htr : tr.effect = .refuse)
    (ht : tr.times = 1) :
    ∃ w' troubles, (p.run (w.troubled [tr])).2 = w'.troubled troubles ∧
      (Q (p.run (w.troubled [tr])).1 w' ∨ R (p.run (w.troubled [tr])).1 w') := by
  induction p generalizing w tr with
  | done o => exact ⟨w, [tr], rfl, .inl h⟩
  | ask r next ih =>
    rcases hw.answer_troubled htr r with ⟨skip, ha⟩ | ⟨-, reply, hbroken, ha⟩
    · have hrefuse : ({ tr with skip := skip } : Trouble).effect = .refuse := htr
      rw [run_ask, ha]
      exact ih (w.answer r).1 h.2 (hw.answer r) hrefuse ht
    · -- The call fails, and the store answers all others.
      have hrefuse : ({ tr with times := tr.times - 1 } : Trouble).effect = .refuse := htr
      have hspent : ({ tr with times := tr.times - 1 } : Trouble).times = 0 := by simp [ht]
      obtain ⟨troubles, hrest⟩ := run_spent (p := next reply) hw hrefuse hspent
      refine ⟨((next reply).run w).2, troubles, ?_⟩
      rw [run_ask, ha, hrest]
      exact ⟨rfl, .inr (h.1 _ reply hbroken)⟩

end Program

end Paybook
