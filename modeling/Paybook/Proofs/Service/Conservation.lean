import Paybook.Proofs.Program.Yields
import Paybook.Proofs.Service.Payment

/-! # What calls move

Every call moves an amount into or out of one wallet when it returns, `Call.movement`, and nothing
otherwise. A payment or a refund books two entries; the one of the wallet moves the money, and once
it is completed the other one is completed too. -/

namespace Paybook

open Program

variable {w : World} {user : Nat} {x : ℚ}

/-! ## Checks -/

namespace Program

variable {α β : Type}

theorem moves_fail (hw : w.Calm) (f : Failure) :
    (fail f : Program α).Yields w (Moves w user x) := (World.Alike.refl hw).moved user

theorem moves_require {c : Bool} {e : Failure} {f : Unit → Program β} (hw : w.Calm)
    (h : c = true → (f ()).Yields w (Moves w user x)) :
    (require c e >>= f).Yields w (Moves w user x) := by
  cases c with
  | true => exact h rfl
  | false => exact moves_fail hw e

theorem moves_ofAttempt {a : Attempt α} {f : α → Program β} (hw : w.Calm)
    (h : ∀ v, a = .ok v → (f v).Yields w (Moves w user x)) :
    (ofAttempt a >>= f).Yields w (Moves w user x) := by
  cases a with
  | ok v => exact h v rfl
  | error e => exact moves_fail hw e

/-- A positive number goes on as an amount. -/
theorem moves_ofDecimal {d : Decimal} {f : Amount → Program β} (hw : w.Calm)
    (h : ∀ a : Amount, a.value = d → (f a).Yields w (Moves w user x)) :
    (ofAttempt (Amount.ofDecimal d) >>= f).Yields w (Moves w user x) := by
  refine moves_ofAttempt hw fun a ha => h a ?_
  unfold Amount.ofDecimal at ha
  cases hd : Amount.ofDecimal? d with
  | none => rw [hd] at ha; cases ha
  | some a' =>
    rw [hd] at ha
    cases ha
    exact Amount.ofDecimal?_eq_some.1 hd

/-- What is loaded is what is stored. -/
theorem moves_load {id : Nat} {f : Entry → Program β} (hw : w.Calm)
    (h : ∀ e, w.store.get? id = some e → (f e).Yields w (Moves w user x)) :
    (load id >>= f).Yields w (Moves w user x) := by
  change ((get? id).bind _ >>= f).Yields w _
  refine yields_bind (yields_bind (yields_request ?_))
  rw [hw.answer_get]
  cases hget : w.store.get? id with
  | none => exact moves_fail (x := x) hw _
  | some e => exact h e hget

theorem moves_complete {e : Entry} {reference : String} (hw : w.Calm) (hp : e.status = .pending)
    (hf : w.store.Follows e) : (complete e reference).Yields w (Moves w e.user e.moved) :=
  yields_complete hw hp hf fun _ _ hm _ => hm

theorem moves_completeFreshly {e : Entry} {word : String} (hw : w.Calm) (hp : e.status = .pending)
    (hf : w.store.Follows e) : (completeFreshly e word).Yields w (Moves w e.user e.moved) :=
  yields_completeFreshly hw hp hf fun _ _ hm _ => hm

/-- A change that does not complete an entry moves nothing. -/
theorem moves_amend {c : Change} {e : Entry} (hw : w.Calm) (hp : e.status = .pending)
    (hf : w.store.Follows e) (hc : c.status? ≠ some .completed) :
    (change c e >>= update).Yields w (Moves w e.user 0) := by
  refine yields_amend hw hp hf ?_
  intro _ _ hm _
  rw [if_neg hc] at hm
  exact hm

end Program

/-! ## Wallets -/

namespace Wallet

theorem moves_fund {e : Entry} {method : Method} (hw : w.Calm) (hp : e.status = .pending)
    (hf : w.store.Follows e) (hkind : e.kind = .charge) : (fund e method).Yields w (Moves w e.user
      (if method = .card ∨ method = .adminCredit then e.amount.value.toRat else 0)) := by
  have hmoved : e.moved = e.amount.value.toRat := by rw [Entry.moved, hkind]; rfl
  cases method with
  | card =>
    rw [if_pos (.inl rfl), ← hmoved]
    refine Looks.moves_bind (.request trivial) hw ?_
    intro verdict w₁ _ h₁
    cases verdict with
    | approved => exact moves_completeFreshly h₁.calm hp (h₁.store ▸ hf)
    | declined => exact moves_fail h₁.calm _
  | bankTransfer => exact moves_amend hw hp hf (by simp [Change.status?])
  | adminCredit =>
    rw [if_pos (.inr rfl), ← hmoved]
    exact moves_completeFreshly hw hp hf
  | wallet | cashOnDelivery => exact moves_fail hw _

theorem moves_charge (t : Terms) (hw : w.Calm) (user : Nat) (amount : Decimal) (method : Method)
    (description : String) : (charge t user amount method description).Yields w (Moves w user
      (if method = .card ∨ method = .adminCredit then amount.toRat else 0)) := by
  refine moves_require hw fun _ => ?_
  refine moves_ofDecimal hw ?_
  intro a ha
  subst ha
  refine moves_require hw fun _ => ?_
  refine moves_require hw fun _ => ?_
  refine (looks_requireUser user).moves_bind hw ?_
  intro _ w₁ _ h₁
  refine yields_acquire ?_
  refine (looks_requireWithinDay _ _ _ _).moves_bind h₁.calm ?_
  intro _ w₂ _ h₂
  refine moves_book_orAbandon h₂.calm ?_
  intro id now w₃ hw₃ hget
  exact moves_fund hw₃ rfl ⟨_, hget, rfl, rfl, rfl⟩ rfl

theorem moves_withdraw (t : Terms) (hw : w.Calm) (user : Nat) (amount : Decimal)
    (account reason : String) :
    (withdraw t user amount account reason).Yields w (Moves w user 0) := by
  refine moves_require hw fun _ => ?_
  refine moves_ofDecimal hw ?_
  intro a _
  refine moves_require hw fun _ => ?_
  refine moves_require hw fun _ => ?_
  refine (looks_requireUser user).moves_bind hw ?_
  intro _ w₁ _ h₁
  refine yields_acquire ?_
  refine (looks_requireCovered _ _).moves_bind h₁.calm ?_
  intro _ w₂ _ h₂
  refine (looks_requireWithinDay _ _ _ _).moves_bind h₂.calm ?_
  intro _ w₃ _ h₃
  exact yields_book h₃.calm fun _ _ _ _ hm _ => hm

theorem moves_withdrawForPayment (hw : w.Calm) (user : Nat) (amount : Decimal)
    (reference : String) :
    (withdrawForPayment user amount reference).Yields w (Moves w user (-amount.toRat)) := by
  refine moves_require hw fun _ => ?_
  refine moves_ofDecimal hw ?_
  intro a ha
  subst ha
  refine yields_acquire ?_
  refine (looks_requireCovered _ _).moves_bind hw ?_
  intro _ w₁ _ h₁
  exact moves_instant h₁.calm

/-- An adjustment goes on with the amount it was asked for. -/
theorem moves_adjustment {amount : Decimal} {reason : String} {admin : Nat}
    {f : Amount → Program Entry} (hw : w.Calm)
    (h : ∀ a : Amount, a.value = amount → (f a).Yields w (Moves w user x)) (user' : Nat) :
    (adjustment user' amount reason admin >>= f).Yields w (Moves w user x) := by
  unfold adjustment
  simp only [LawfulMonad.bind_assoc]
  refine moves_require hw fun _ => ?_
  refine moves_require hw fun _ => ?_
  refine moves_require hw fun _ => ?_
  exact moves_ofDecimal hw h

theorem moves_adminCredit (hw : w.Calm) (user : Nat) (amount : Decimal) (reason : String)
    (admin : Nat) :
    (adminCredit user amount reason admin).Yields w (Moves w user amount.toRat) := by
  refine moves_adjustment hw (fun a ha => ?_) user
  subst ha
  refine (looks_requireUser user).moves_bind hw ?_
  intro _ w₁ _ h₁
  exact yields_acquire (moves_instant h₁.calm)

theorem moves_adminDebit (hw : w.Calm) (user : Nat) (amount : Decimal) (reason : String)
    (admin : Nat) :
    (adminDebit user amount reason admin).Yields w (Moves w user (-amount.toRat)) := by
  refine moves_adjustment hw (fun a ha => ?_) user
  subst ha
  refine (looks_requireUser user).moves_bind hw ?_
  intro _ w₁ _ h₁
  refine yields_acquire ?_
  refine (looks_requireCovered _ _).moves_bind h₁.calm ?_
  intro _ w₂ _ h₂
  exact moves_instant h₂.calm

end Wallet

/-! ## Payments -/

namespace Payment

variable {e : Entry}

/-- The entry of an order is completed by that of the wallet and moves nothing itself. -/
theorem moves_instant_completeBy {d : Draft} {word : String} (hw : w.Calm)
    (hget : w.store.get? e.id = some e) (hp : e.status = .pending) (hmoved : e.moved = 0) :
    (Wallet.instant d word >>= completeBy e).Yields w
      (Moves w d.user (d.kind.signed d.amount)) := by
  refine yields_bind (Wallet.yields_instant hw fun leg w₁ hm hkept => yields_onFailure ?_)
  refine yields_complete hm.calm hp ⟨e, hkept _ _ hget, hp, rfl, rfl⟩ ?_
  intro e' w₂ hm₂ _
  rw [hmoved] at hm₂
  refine ⟨hm₂.calm, fun u => ?_⟩
  rw [hm₂.worth, hm.worth, ite_self, add_zero]

theorem moves_collect {method : Method} (hw : w.Calm) (hget : w.store.get? e.id = some e)
    (hp : e.status = .pending) (hkind : e.kind = .payment) : (collect e method).Yields w
      (Moves w e.user (if method = .wallet then -e.amount.value.toRat else 0)) := by
  have hmoved : e.moved = 0 := by rw [Entry.moved, hkind]; rfl
  have hf : w.store.Follows e := ⟨e, hget, hp, rfl, rfl⟩
  cases method with
  | wallet =>
    change ((Wallet.requireCovered _ _ >>= fun _ => Wallet.instant _ _) >>= completeBy e).Yields w _
    rw [LawfulMonad.bind_assoc]
    refine (Wallet.looks_requireCovered _ _).moves_bind hw ?_
    intro _ w₁ _ h₁
    exact moves_instant_completeBy h₁.calm (h₁.store ▸ hget) hp hmoved
  | card =>
    refine Looks.moves_bind (.request trivial) hw ?_
    intro verdict w₁ _ h₁
    cases verdict with
    | approved => exact hmoved ▸ moves_completeFreshly h₁.calm hp (h₁.store ▸ hf)
    | declined => exact moves_fail h₁.calm _
  | cashOnDelivery => exact moves_amend hw hp hf (by simp [Change.status?])
  | bankTransfer | adminCredit => exact moves_fail hw _

theorem dueAmount_eq_ok {o : Order} {a : Amount} (h : dueAmount o = .ok a) : a.value = o.total := by
  unfold dueAmount at h
  cases hd : Amount.ofDecimal? o.total with
  | none => rw [hd] at h; cases h
  | some a' =>
    rw [hd] at h
    cases h
    exact Amount.ofDecimal?_eq_some.1 hd

theorem moves_pay (t : Terms) (hw : w.Calm) (user order : Nat) (method : Method) :
    (pay t user order method).Yields w (Moves w user (if method = .wallet then
      -((w.orders.find? order).map fun o => o.total.toRat).getD 0 else 0)) := by
  refine moves_require hw fun _ => ?_
  refine moves_require hw fun _ => ?_
  refine moves_require hw fun _ => ?_
  refine (Wallet.looks_requireUser user).moves_bind hw ?_
  intro _ w₁ _ h₁
  refine yields_request (r := .order order) ?_
  refine moves_ofAttempt h₁.calm ?_
  intro o ho
  have horder : w.orders.find? order = some o := by
    rw [← h₁.orders]
    change (w₁.answer (.order order)).1 = some o
    cases hfind : (w₁.answer (.order order)).1 with
    | none => rw [hfind] at ho; cases ho
    | some o' => rw [hfind] at ho; cases ho; rfl
  rw [horder]
  refine moves_require h₁.calm fun _ => ?_
  refine moves_require h₁.calm fun _ => ?_
  refine moves_ofAttempt h₁.calm ?_
  intro amount hamount
  rw [Option.map_some, Option.getD_some, ← dueAmount_eq_ok hamount]
  refine yields_acquire ?_
  refine (looks_requireUnpaid order).moves_bind h₁.calm ?_
  intro _ w₂ _ h₂
  have hend : ∀ w₃ : World, w₃.Calm → (book ⟨user, some order, amount, .payment, method,
      s!"Payment for order #{order}"⟩ >>= fun e => orAbandon e (collect e method)).Yields w₃
        (Moves w₃ user (if method = .wallet then -amount.value.toRat else 0)) :=
    fun w₃ h₃ => moves_book_orAbandon h₃ fun id now w₄ hw₄ hget => moves_collect hw₄ hget rfl rfl
  split
  · next hm =>
    rw [if_pos hm] at hend
    exact (Wallet.looks_requireCovered user amount).moves_bind h₂.calm fun _ w₃ _ h₃ =>
      hend w₃ h₃.calm
  · next hm =>
    rw [if_neg hm] at hend
    exact hend w₂ h₂.calm

theorem moves_giveBack {method : Method} (hw : w.Calm) (hget : w.store.get? e.id = some e)
    (hp : e.status = .pending) (hkind : e.kind = .refund) : (giveBack e method).Yields w
      (Moves w e.user (if method = .wallet then e.amount.value.toRat else 0)) := by
  have hmoved : e.moved = 0 := by rw [Entry.moved, hkind]; rfl
  have hf : w.store.Follows e := ⟨e, hget, hp, rfl, rfl⟩
  cases method with
  | wallet => exact moves_instant_completeBy hw hget hp hmoved
  | card => exact hmoved ▸ moves_completeFreshly hw hp hf
  | cashOnDelivery =>
    have hf' : w.store.Follows ((Change.note "Manual cash refund required").result e w.now) :=
      hf.of_origin rfl rfl
    exact yields_change hp (hmoved ▸ moves_completeFreshly hw hp hf')
  | bankTransfer | adminCredit => exact moves_fail hw _

theorem moves_refund (hw : w.Calm) {payment : Nat} {e : Entry}
    (hget : w.store.get? payment = some e) (reason : String) : (refund payment reason).Yields w
      (Moves w e.user (if e.method = .wallet then e.amount.value.toRat else 0)) := by
  refine moves_require hw fun _ => ?_
  refine moves_load hw ?_
  intro seen hseen
  refine moves_ofAttempt hw ?_
  intro order _
  refine yields_acquire ?_
  refine moves_load hw ?_
  intro paid hpaid
  rw [hget] at hpaid
  obtain rfl := Option.some.inj hpaid
  refine moves_require hw fun _ => ?_
  refine (looks_requireUnrefunded order).moves_bind hw fun _ w₁ _ h₁ => ?_
  exact moves_book_orAbandon h₁.calm fun id now w₂ hw₂ hget => moves_giveBack hw₂ hget rfl rfl

theorem moves_finish {reference : Option String} (hw : w.Calm) (hp : e.status = .pending)
    (hf : w.store.Follows e) : (finish reference e).Yields w (Moves w e.user e.moved) := by
  cases reference with
  | some reference => exact moves_complete hw hp hf
  | none => exact moves_completeFreshly hw hp hf

theorem moves_settleTo (t : Terms) {status : Status} {reference notes : Option String}
    (hw : w.Calm) (hp : e.status = .pending) (hf : w.store.Follows e) :
    (settleTo t e status reference notes).Yields w
      (Moves w e.user (if status = .completed then e.moved else 0)) := by
  cases status with
  | completed =>
    rw [settleTo_completed]
    refine (looks_requireCompletable t e).moves_bind hw ?_
    intro _ w₁ _ h₁
    have hf₁ : w₁.store.Follows e := h₁.store ▸ hf
    cases notes with
    | some text =>
      have hnoted : w₁.store.Follows ((Change.note text).result e w₁.now) := hf₁.of_origin rfl rfl
      exact yields_change hp (moves_finish h₁.calm hp hnoted)
    | none => exact moves_finish h₁.calm hp hf₁
  | failed | cancelled => exact moves_amend hw hp hf (by simp [Change.status?])
  | pending => exact moves_fail hw _

theorem moves_settle (t : Terms) (hw : w.Calm) {entry : Nat} {e : Entry}
    (hget : w.store.get? entry = some e) (status : Status) (reference notes : Option String) :
    (settle t entry status reference notes).Yields w
      (Moves w e.user (if status = .completed then e.moved else 0)) := by
  refine moves_require hw fun _ => ?_
  refine moves_require hw fun _ => ?_
  refine moves_load hw ?_
  intro seen _
  refine yields_acquire ?_
  refine moves_load hw ?_
  intro e' he'
  -- The call runs alone, so nothing changes between its two loads.
  rw [hget] at he'
  obtain rfl := Option.some.inj he'
  refine moves_ofAttempt hw ?_
  intro _ hpending
  have hp : e.status = .pending := Entry.checkPending_eq_ok.1 hpending
  have hid : e.id = entry := (Store.get?_eq_some.1 hget).2
  exact moves_settleTo t hw hp ⟨e, hid ▸ hget, hp, rfl, rfl⟩

end Payment

/-! ## Calls -/

namespace Call

/-- The user whose wallet a call is about, and what it moves into that wallet when it returns. -/
def movement (w : World) : Call → Nat × ℚ
  | charge user amount method _ =>
    (user, if method = .card ∨ method = .adminCredit then amount.toRat else 0)
  | withdraw user _ _ _ => (user, 0)
  | withdrawForPayment user amount _ => (user, -amount.toRat)
  | adminCredit user amount _ _ => (user, amount.toRat)
  | adminDebit user amount _ _ => (user, -amount.toRat)
  | pay user order method =>
    (user, if method = .wallet then
      -((w.orders.find? order).map fun o => o.total.toRat).getD 0 else 0)
  | refund payment _ =>
    match w.store.get? payment with
    | some e => (e.user, if e.method = .wallet then e.amount.value.toRat else 0)
    | none => (0, 0)
  | settle entry status _ _ =>
    match w.store.get? entry with
    | some e => (e.user, if status = .completed then e.moved else 0)
    | none => (0, 0)

theorem moves (t : Terms) (hw : w.Calm) (c : Call) :
    (c.program t).Yields w (Moves w (c.movement w).1 (c.movement w).2) := by
  cases c with
  | charge => exact Wallet.moves_charge t hw _ _ _ _
  | withdraw => exact Wallet.moves_withdraw t hw _ _ _ _
  | withdrawForPayment => exact Wallet.moves_withdrawForPayment hw _ _ _
  | adminCredit => exact Wallet.moves_adminCredit hw _ _ _ _
  | adminDebit => exact Wallet.moves_adminDebit hw _ _ _ _
  | pay => exact Payment.moves_pay t hw _ _ _
  | refund payment reason =>
    cases hget : w.store.get? payment with
    | some e =>
      simp only [movement, hget]
      exact Payment.moves_refund hw hget reason
    | none =>
      refine moves_require hw fun _ => moves_load hw fun e he => ?_
      rw [hget] at he
      cases he
  | settle entry status reference notes =>
    cases hget : w.store.get? entry with
    | some e =>
      simp only [movement, hget]
      exact Payment.moves_settle t hw hget status reference notes
    | none =>
      refine moves_require hw fun _ => moves_require hw fun _ => moves_load hw fun e he => ?_
      rw [hget] at he
      cases he

/-- A call on a ledger, whatever entries this one has, changes the worth of one wallet by its
movement when it returns. Nothing is moved when it fails or stops, and no other wallet is ever
touched. -/
theorem run_worth (t : Terms) (w : World) (s : Store) (c : Call) (user : Nat) :
    (c.run t (w.withStore s)).2.store.worth user = s.worth user +
      match (c.run t (w.withStore s)).1 with
      | .returned _ =>
        if user = (c.movement (w.withStore s)).1 then (c.movement (w.withStore s)).2 else 0
      | .failed _ | .overflowed => 0 := by
  have hm := c.moves t (w.calm_withStore s)
  unfold Yields at hm
  change ((c.program t).run (w.withStore s)).2.store.worth user = _ + match
    ((c.program t).run (w.withStore s)).1 with | .returned _ => _ | .failed _ | .overflowed => _
  cases hrun : ((c.program t).run (w.withStore s)).1 with
  | returned e =>
    rw [hrun] at hm
    exact hm.worth user
  | failed f =>
    rw [hrun] at hm
    exact (hm.worth user).trans (by rw [ite_self]; rfl)
  | overflowed =>
    rw [hrun] at hm
    exact (hm.worth user).trans (by rw [ite_self]; rfl)

/-- An order for four is paid out of a wallet that is worth ten. -/
example :
    let w := ((World.opening {} 0 ⟨0, 0⟩ fun _ => 0).registerUser ⟨1, "Ada"⟩).registerOrder
      ⟨7, 1, .ofWord 4, "PENDING"⟩
    let s := ((adminCredit 1 (.ofWord 10) "gift" 1).run {} (w.withStore .empty)).2.store
    let r := (pay 1 7 .wallet).run {} (w.withStore s)
    s.worth 1 = 10 ∧ (pay 1 7 .wallet).movement (w.withStore s) = (1, -4) ∧
      (∃ e, r.1 = .returned e) ∧ r.2.store.worth 1 = 6 :=
  ⟨by decide +kernel, by decide +kernel, ⟨_, rfl⟩, by decide +kernel⟩

end Call

end Paybook
