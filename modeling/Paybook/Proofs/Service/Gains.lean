import Paybook.Proofs.Program.Risks
import Paybook.Proofs.Store.Extends

/-! # What the steps of calls leave behind

The entries that a call books come behind the others, in the order in which it books them.
`World.Gains` says which ones there are so far and which gateway has been asked; each step that the
services share has a rule for what it makes of them, also where the store fails at it. -/

namespace Paybook

open Program Time

namespace World

variable {w w₁ : World} {desk : Option CardDesk} {es l r : List Entry} {x e : Entry}

/-- What a gateway says next. -/
def verdict (w : World) (desk : CardDesk) : Verdict := (w.answer (.verdict desk)).1

/-- The world after a gateway was asked, if one was. -/
def consulted (w : World) : Option CardDesk → World
  | none => w
  | some desk => (w.answer (.verdict desk)).2

/-- A calm world at the same time, after one gateway was asked at most. -/
structure Kept (w : World) (desk : Option CardDesk) (w' : World) : Prop where
  calm : w'.Calm
  now : w'.now = w.now
  charges : w'.charges = (w.consulted desk).charges
  payments : w'.payments = (w.consulted desk).payments

/-- Such a world with these entries behind the others. -/
structure Gains (w : World) (desk : Option CardDesk) (es : List Entry) (w' : World) : Prop extends
    w.Kept desk w' where
  store : w.store.Extends es w'.store

theorem Kept.refl (hw : w.Calm) : w.Kept none w := ⟨hw, rfl, rfl, rfl⟩

theorem Kept.withStore (h : w.Kept desk w₁) (s : Store) : w.Kept desk (w₁.withStore s) :=
  ⟨w₁.calm_withStore s, h.now, h.charges, h.payments⟩

theorem Kept.token (h : w.Kept desk w₁) : w.Kept desk (w₁.answer .token).2 :=
  ⟨h.calm, h.now, h.charges, h.payments⟩

namespace Gains

theorem refl (hw : w.Calm) : w.Gains none [] w := ⟨.refl hw, .refl _⟩

theorem token (h : w.Gains desk es w₁) : w.Gains desk es (w₁.answer .token).2 :=
  ⟨h.toKept.token, h.store⟩

theorem verdict (h : w.Gains none es w₁) (desk : CardDesk) :
    w.Gains (some desk) es (w₁.answer (.verdict desk)).2 := by
  have hc := h.charges
  have hp := h.payments
  cases desk with
  | charges => exact ⟨⟨h.calm, h.now, congrArg CardGateway.advance hc, hp⟩, h.store⟩
  | payments => exact ⟨⟨h.calm, h.now, hc, congrArg CardGateway.advance hp⟩, h.store⟩

/-- The gateways say what they would have said before. -/
theorem verdict_eq (h : w.Gains none es w₁) (desk : CardDesk) :
    w₁.verdict desk = w.verdict desk := by
  cases desk with
  | charges => exact congrArg CardGateway.next h.charges
  | payments => exact congrArg CardGateway.next h.payments

theorem insert (h : w.Gains desk es w₁) (d : Draft) :
    w.Gains desk (es ++ [.ofDraft (w₁.store.lastId + 1) d w.now])
      (w₁.withStore (w₁.store.insert d w₁.now)) := by
  refine ⟨h.toKept.withStore _, ?_⟩
  rw [← h.now]
  exact h.store.trans (.insert _ d w₁.now)

theorem replace (h : w.Gains desk (l ++ x :: r) w₁) (hid : e.id = x.id) :
    w.Gains desk (l ++ e :: r) (w₁.withStore (w₁.store.replace e)) :=
  ⟨h.toKept.withStore _, h.store.replace hid⟩

theorem get? (h : w.Gains desk (l ++ x :: r) w₁) : w₁.store.get? x.id = some x :=
  h.store.get? (List.mem_append_right _ List.mem_cons_self)

theorem follows (h : w.Gains desk (l ++ x :: r) w₁) (hp : x.status = .pending) :
    w₁.store.Follows x := ⟨x, h.get?, hp, rfl, rfl⟩

end Gains

end World

namespace Program

variable {α : Type} {w w₁ : World} {desk : Option CardDesk} {es l r : List Entry} {x e : Entry}
variable {Q R : Outcome Entry → World → Prop}

/-! ## Writes -/

theorem risks_update (hw : w.Calm) (hf : w.store.Follows e)
    (hQ : Q (.returned (Store.bumped e)) (w.withStore (w.store.replace (Store.bumped e))))
    (hR : ∀ f, R (.failed f) w) : (update e).Risks w Q R := by
  refine ⟨?_, ?_⟩
  · rintro f _ ⟨⟩
    exact hR f
  · rw [hw.answer_update hf]
    exact hQ

theorem risks_change {c : Change} {f : Entry → Program α} {Q R : Outcome α → World → Prop}
    (hp : e.status = .pending) (h : (f (c.result e w.now)).Risks w Q R) :
    (change c e >>= f).Risks w Q R := by
  refine risks_request (r := .clock) (fun _ => rfl) ?_
  change ((ofAttempt (c.apply e w.now)).bind f).Risks w Q R
  rw [Change.apply_eq_ok.2 ⟨hp, rfl⟩]
  exact h

/-- A booked entry comes behind the others. -/
theorem risks_book {d : Draft} (h : w.Gains desk es w₁)
    (hQ : ∀ id w₂, w.Gains desk (es ++ [.ofDraft id d w.now]) w₂ →
      Q (.returned (.ofDraft id d w.now)) w₂)
    (hR : ∀ f, R (.failed f) w₁) : (book d).Risks w₁ Q R := by
  refine ⟨?_, ?_⟩
  · rintro f _ ⟨⟩
    exact hR f
  · rw [h.calm.answer_insert]
    have hnew := h.insert d
    rw [← h.now] at hnew hQ
    exact hQ _ _ hnew

/-- An entry that is amended takes the place of the one it is based on. -/
theorem risks_amend {c : Change} (h : w.Gains desk (l ++ x :: r) w₁)
    (hf : w₁.store.Follows e) (hid : e.id = x.id) (hp : e.status = .pending)
    (hQ : ∀ w₂, w.Gains desk (l ++ Store.bumped (c.result e w.now) :: r) w₂ →
      Q (.returned (Store.bumped (c.result e w.now))) w₂)
    (hR : ∀ f, R (.failed f) w₁) : (change c e >>= update).Risks w₁ Q R := by
  have ho := c.origin_result e w₁.now
  refine risks_change hp (risks_update h.calm (hf.of_origin ho (c.version_result e w₁.now)) ?_ hR)
  rw [h.now] at ho ⊢
  exact hQ _ (h.replace ((Entry.id_eq_of_origin ho).trans hid))

theorem risks_complete {reference : String} (h : w.Gains desk (l ++ x :: r) w₁)
    (hf : w₁.store.Follows e) (hid : e.id = x.id) (hp : e.status = .pending)
    (hQ : ∀ w₂, w.Gains desk
        (l ++ Store.bumped ((Change.complete reference).result e w.now) :: r) w₂ →
      Q (.returned (Store.bumped ((Change.complete reference).result e w.now))) w₂)
    (hR : ∀ f, R (.failed f) w₁) : (complete e reference).Risks w₁ Q R :=
  risks_amend h hf hid hp hQ hR

theorem risks_completeFreshly {word : String} (h : w.Gains desk (l ++ x :: r) w₁)
    (hf : w₁.store.Follows e) (hid : e.id = x.id) (hp : e.status = .pending)
    (hQ : ∀ reference w₂, w.Gains desk
        (l ++ Store.bumped ((Change.complete reference).result e w.now) :: r) w₂ →
      Q (.returned (Store.bumped ((Change.complete reference).result e w.now))) w₂)
    (hR : ∀ f w₂, w.Gains desk (l ++ x :: r) w₂ → R (.failed f) w₂) :
    (completeFreshly e word).Risks w₁ Q R := by
  -- A token is taken first, which touches no entry.
  refine risks_request (r := .token) (fun _ => rfl) ?_
  exact risks_complete h.token hf hid hp (hQ _) fun f => hR f _ h.token

/-- A pending entry that is given up is failed. -/
theorem yields_abandon_gains {f : Failure} (h : w.Gains desk (l ++ x :: r) w₁)
    (hp : x.status = .pending)
    (hQ : ∀ w₂, w.Gains desk
        (l ++ Store.bumped ((Change.fail f.detail).result x w.now) :: r) w₂ →
      Q (.failed f) w₂) : (abandon x.id f).Yields w₁ Q := by
  have hfinal : x.isFinal = false := Entry.isFinal_eq_false.2 hp
  have happly : x.fail f.detail (w₁.answer .clock).1 =
      .ok ((Change.fail f.detail).result x w₁.now) :=
    Change.apply_eq_ok (c := .fail f.detail).2 ⟨hp, rfl⟩
  have hf : w₁.store.Follows ((Change.fail f.detail).result x w₁.now) :=
    (h.follows hp).of_origin rfl rfl
  refine yields_request ?_
  rw [h.calm.answer_get, h.get?]
  change Yields (if x.isFinal then fail f else _) w₁ Q
  rw [hfinal]
  refine yields_request (r := .clock) ?_
  simp only [happly]
  change (fail f).Yields (w₁.answer (.update ((Change.fail f.detail).result x w₁.now))).2 Q
  rw [h.calm.answer_update hf, h.now]
  exact hQ _ (h.replace rfl)

end Program

end Paybook
