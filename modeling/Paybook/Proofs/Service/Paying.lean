import Paybook.Proofs.Program.Demands
import Paybook.Proofs.Service.Exactness
import Paybook.Proofs.Service.WellKept

/-! # When orders are paid

`Payment.demands` lists what paying an order demands, in the order in which it is looked for. An
order is paid exactly if all of it is so, and otherwise the call fails with the kind of the first
demand that is not met: behind the checks nothing can go wrong but that the card is declined, which
is the last demand. This is `World.pays_exactly`. -/

namespace Paybook

open Program Time

/-! ## The checks of wallets and orders -/

/-- Whether a daily limit is held against a sum: clocks show a date, and to the completed entries of
that day a decimal can be added. -/
def Store.Tallies (s : Store) (t : Terms) (now : Instant) (user : Nat) (kind : EntryKind)
    (d sum : Decimal) : Prop :=
  ∃ today used, t.zone.dayAround? now = some today ∧
    Decimal.sum? ((s.query (Wallet.doneWithin user kind today)).map fun e => e.amount.value) =
      some used ∧ used.add? d = some sum

theorem Store.Tallies.withinDay_iff {s : Store} {t : Terms} {now : Instant} {user : Nat}
    {kind : EntryKind} {a : Amount} {sum : Decimal} (h : s.Tallies t now user kind a.value sum) :
    s.WithinDay t now user kind a ↔
      ∀ limit, Wallet.dailyLimit? t.settings.wallet kind = some limit → sum ≤ limit := by
  obtain ⟨today, used, htoday, hused, hsum⟩ := h
  simp [WithinDay, Zone.dayAround_of_dayAround? htoday, hused, hsum]

namespace Program

variable {α : Type} {w : World} {Q : Outcome α → World → Prop} {ds : List Demand}

theorem heeds_requireUser {user : Nat} {f : Unit → Program α} (h : (f ()).Heeds w Q ds) :
    (Wallet.requireUser user >>= f).Heeds w Q
      (⟨∃ u, w.users.find? user = some u, .notFound⟩ :: ds) := by
  change (request (.user user) >>= fun found => require found.isSome _ >>= f).Heeds w Q _
  refine heeds_bind_of_run rfl (heeds_require ?_ fun _ => h)
  exact Option.isSome_iff_exists

/-- Nothing is asked of the other entries of an order. -/
theorem heeds_none (hw : w.Calm) {order : Nat} {kind : EntryKind} {text : String}
    {f : Unit → Program α} (h : (f ()).Heeds w Q ds) :
    ((Payment.hasDone order kind >>= fun found =>
      require (!found) (.preconditionFailed text)) >>= f).Heeds w Q
      (⟨∀ e ∈ w.store.entries, e.kind = kind → e.order = some order → e.status ≠ .completed,
        .preconditionFailed⟩ :: ds) := by
  rw [LawfulMonad.bind_assoc]
  have hdone : (Payment.hasDone order kind).run w =
      (.returned (!(w.store.query (Payment.doneFor order kind)).isEmpty), w) :=
    run_bind_of_run (run_select hw _)
  refine heeds_bind_of_run hdone (heeds_require ?_ fun _ => h)
  rw [Bool.not_not, List.isEmpty_iff, List.eq_nil_iff_forall_not_mem]
  simp only [Store.mem_query, Store.selects_doneFor, not_and]
  exact ⟨fun hnone e he hk ho hc => hnone e he ho hc hk, fun hnone e he ho hc hk =>
    hnone e he hk ho hc⟩

/-- An amount must be covered by a balance that is within the range of decimals. -/
theorem heeds_requireCovered (hw : w.Calm) {user : Nat} {a : Amount} {f : Unit → Program α}
    (hb : ∃ b, Balance.ofEntries? (w.store.query (Wallet.holdings user)) = some b)
    (h : w.store.Covers user a → (f ()).Heeds w Q ds) :
    (Wallet.requireCovered user a >>= f).Heeds w Q
      (⟨w.store.Covers user a, .preconditionFailed⟩ :: ds) := by
  obtain ⟨b, hb⟩ := hb
  have hholds : (Wallet.holds user).run w = (.returned b, w) := by
    rw [run_holds hw, hb]
    rfl
  change ((Wallet.holds user >>= fun b => require (b.covers a) _) >>= f).Heeds w Q _
  rw [LawfulMonad.bind_assoc]
  refine heeds_bind_of_run hholds (heeds_require ?_ h)
  rw [Store.Covers, hb]
  simp

/-- An amount must stay within the daily limit, if there is one. -/
theorem heeds_requireWithinDay (hw : w.Calm) {t : Terms} {user : Nat} {kind : EntryKind}
    {a : Amount} {f : Unit → Program α}
    (htallies : ∃ sum, w.store.Tallies t w.now user kind a.value sum)
    (h : w.store.WithinDay t w.now user kind a → (f ()).Heeds w Q ds) :
    (Wallet.requireWithinDay t user kind a >>= f).Heeds w Q
      (⟨w.store.WithinDay t w.now user kind a, .preconditionFailed⟩ :: ds) := by
  obtain ⟨sum, htallies⟩ := htallies
  have hiff := htallies.withinDay_iff
  cases hlimit : Wallet.dailyLimit? t.settings.wallet kind with
  | none =>
    have hday := hiff.2 (by simp [hlimit])
    unfold Wallet.requireWithinDay
    rw [hlimit]
    exact .of_met hday (h hday)
  | some limit =>
    obtain ⟨today, used, htoday, hused, hsum⟩ := htallies
    have hrun : (Wallet.requireWithinDay t user kind a).run w = _ :=
      Wallet.run_requireWithinDay hw hlimit htoday
    rw [Wallet.requireRoom, hused, run_bind_of_run (a := used) rfl, hsum,
      run_bind_of_run (a := sum) rfl] at hrun
    refine .bind_of_run_eq hrun (heeds_require ?_ h)
    rw [hiff, hlimit]
    simp

/-- Only a positive decimal is an amount. -/
theorem heeds_amount {d : Decimal} {e : Failure} {f : Amount → Program α}
    (h : ∀ a : Amount, a.value = d → (f a).Heeds w Q ds) :
    (ofAttempt (match Amount.ofDecimal? d with
      | some a => .ok a
      | none => .error e) >>= f).Heeds w Q (⟨.zero < d, e.kind⟩ :: ds) := by
  refine heeds_ofAttempt (fun hmet => ?_) fun hnot => ?_
  · have hpos : d.IsPositive := Decimal.zero_lt_iff.1 hmet
    have ha : Amount.ofDecimal? d = some ⟨d, hpos⟩ := Amount.ofDecimal?_eq_some.2 rfl
    exact ⟨⟨d, hpos⟩, by rw [ha], h _ rfl⟩
  · have hnone : Amount.ofDecimal? d = none :=
      dif_neg fun hpos => hnot (Decimal.zero_lt_iff.2 hpos)
    rw [hnone]
    exact ⟨_, rfl, rfl⟩

end Program

/-- A sound draft is carried out unless a gateway declines. -/
theorem Draft.heeds_entrust {w : World} {d : Draft} {Q : Outcome Entry → World → Prop}
    (hw : w.Calm) (hs : d.Sound w.store) (hQ : ∀ e w', d.Done w e w' → Q (.returned e) w') :
    (Action.entrust d).program.Heeds w Q
      [⟨∀ desk, d.desk? = some desk → w.verdict desk = .approved, .processingFailure⟩] := by
  have heffect := (Action.risks (a := .entrust d) hw hs).yields
  refine ⟨fun happroves => heffect.mono fun o w' h => ?_, fun hnot => ?_⟩
  · cases h with
    | entrusted done => exact hQ _ _ done
    | declined declined =>
      have hverdict := (happroves _ declined.asked).symm.trans declined.verdict
      cases hverdict
  · change Yields _ w fun o _ => o.FailsAs .processingFailure
    refine heffect.mono fun o w' h => ?_
    cases h with
    | entrusted done =>
      cases done with
      | alone _ approved => exact absurd approved hnot
      | paired method => exact absurd (by simp [desk?_of_wallet method]) hnot
    | declined declined => exact ⟨_, rfl, declined.kind⟩

/-! ## Paying -/

namespace Payment

/-- What paying an order demands, in the order in which it is looked for. -/
def demands (t : Terms) (w : World) (user order : Nat) (method : Method) : List Demand :=
  [⟨user ≠ 0, .invalidArgument⟩,
   ⟨order ≠ 0, .invalidArgument⟩,
   ⟨method = .wallet ∨ method = .card ∨ method = .cashOnDelivery, .invalidArgument⟩,
   ⟨∃ u, w.users.find? user = some u, .notFound⟩,
   ⟨∃ o, w.orders.find? order = some o, .notFound⟩,
   ⟨∀ o, w.orders.find? order = some o → o.user = user, .preconditionFailed⟩,
   ⟨∀ o, w.orders.find? order = some o → t.settings.isPayable o.status = true,
    .preconditionFailed⟩,
   ⟨∀ o, w.orders.find? order = some o → .zero < o.total, .preconditionFailed⟩,
   ⟨∀ e ∈ w.store.entries, e.kind = .payment → e.order = some order → e.status ≠ .completed,
    .preconditionFailed⟩,
   ⟨method = .wallet → ∀ o, w.orders.find? order = some o → ∃ b,
      Balance.ofEntries? (w.store.query (Wallet.holdings user)) = some b ∧ o.total ≤ b.value,
    .preconditionFailed⟩,
   ⟨method = .card → w.verdict .payments = .approved, .processingFailure⟩]

/-- Whether a call returns an entry that a draft of a payment of an order has become. -/
def Pays (w : World) (user order : Nat) (method : Method) (r : Outcome Entry) (w' : World) : Prop :=
  ∃ o a text e, w.orders.find? order = some o ∧ a.value = o.total ∧ r = .returned e ∧
    (⟨user, some order, a, .payment, method, text⟩ : Draft).Done w e w'

variable {t : Terms} {w : World} {user order : Nat} {method : Method} {ds : List Demand}
variable {Q : Outcome Entry → World → Prop}

theorem canPay_iff : canPay method = true ↔
    method = .wallet ∨ method = .card ∨ method = .cashOnDelivery := by
  cases method <;> simp [canPay]

theorem heeds_order {f : Order → Program Entry} {text : String}
    (h : ∀ o, w.orders.find? order = some o → (f o).Heeds w Q ds) :
    (request (.order order) >>= fun found => ofAttempt (match found with
      | some o => .ok o
      | none => .error (.notFound text)) >>= f).Heeds w Q
      (⟨∃ o, w.orders.find? order = some o, .notFound⟩ :: ds) := by
  have hreply : (request (.order order)).run w = (.returned (w.orders.find? order), w) := rfl
  refine heeds_bind_of_run hreply (heeds_ofAttempt ?_ fun hnone => ?_)
  · rintro ⟨o, ho⟩
    exact ⟨o, by rw [ho], h o ho⟩
  · rw [Option.eq_none_iff_forall_ne_some.2 fun o ho => hnone ⟨o, ho⟩]
    exact ⟨_, rfl, rfl⟩

theorem heeds_dueAmount {o : Order} {f : Amount → Program Entry}
    (h : ∀ a : Amount, a.value = o.total → (f a).Heeds w Q ds) :
    (ofAttempt (dueAmount o) >>= f).Heeds w Q (⟨.zero < o.total, .preconditionFailed⟩ :: ds) :=
  heeds_amount h

/-- A payment asks a gateway exactly if a card pays. -/
theorem desk?_of_payment {d : Draft} (hkind : d.kind = .payment) {desk : CardDesk} :
    d.desk? = some desk ↔ d.method = .card ∧ desk = .payments := by
  unfold Draft.desk?
  rw [hkind]
  cases d.method <;> simp [eq_comm]

/-- A sound payment is made unless the card is declined. -/
theorem heeds_entrust {d : Draft} (hw : w.Calm) (hs : d.Sound w.store) (hkind : d.kind = .payment)
    (hQ : ∀ e w', d.Done w e w' → Q (.returned e) w') :
    (Action.entrust d).program.Heeds w Q
      [⟨d.method = .card → w.verdict .payments = .approved, .processingFailure⟩] :=
  .of_iff (d.heeds_entrust hw hs hQ) (by simp [desk?_of_payment hkind])

/-- Paying an order heeds its demands, and makes the payment when they are met. The balance must be
within the range of decimals when the wallet is to pay. -/
theorem heeds_pay (t : Terms) (hw : w.Calm) (user order : Nat) (method : Method)
    (hb : method = .wallet →
      ∃ b, Balance.ofEntries? (w.store.query (Wallet.holdings user)) = some b) :
    (pay t user order method).Heeds w (Pays w user order method)
      (demands t w user order method) := by
  refine heeds_requireId fun _ => heeds_requireId fun _ => ?_
  refine heeds_require canPay_iff fun hmethod => ?_
  refine heeds_requireUser (heeds_order fun o ho => ?_)
  have hfound : ∀ P : Order → Prop, P o ↔ ∀ o', w.orders.find? order = some o' → P o' := by
    intro P
    simp [ho]
  refine heeds_require (decide_eq_true_iff.trans (hfound fun o => o.user = user)) fun _ => ?_
  refine heeds_require (hfound fun o => t.settings.isPayable o.status = true) fun _ => ?_
  refine .of_iff (heeds_dueAmount fun a ha => ?_) (hfound fun o => .zero < o.total)
  refine heeds_acquire (heeds_none hw ?_)
  have hdone : ∀ text e w', (⟨user, some order, a, .payment, method, text⟩ : Draft).Done w e w' →
      Pays w user order method (.returned e) w' :=
    fun text e w' h => ⟨o, a, text, e, ho, ha, rfl, h⟩
  split
  · next hwallet =>
    subst hwallet
    have hcovers : w.store.Covers user a ↔ (Method.wallet = .wallet → ∀ o', w.orders.find? order =
        some o' → ∃ b, Balance.ofEntries? (w.store.query (Wallet.holdings user)) = some b ∧
          o'.total ≤ b.value) := by
      simp [ho, Store.Covers, Balance.covers, ha]
    refine .of_iff (heeds_requireCovered hw (hb rfl) fun hcovered => ?_) hcovers
    exact heeds_entrust hw ⟨rfl, fun _ => hcovered⟩ rfl (hdone _)
  · next hwallet =>
    refine .of_met (fun h => absurd h hwallet) ?_
    exact heeds_entrust hw ⟨canPay_iff.2 hmethod, fun h => absurd h hwallet⟩ rfl (hdone _)

/-- What is returned for a payment is stored, and is what has become of its draft. -/
theorem Pays.stored {r : Outcome Entry} {w' : World} (h : Pays w user order method r w') {e : Entry}
    (hr : r = .returned e) : w'.store.get? e.id = some e ∧ ∃ o a text reference,
      w.orders.find? order = some o ∧ a.value = o.total ∧
      e.Made ⟨user, some order, a, .payment, method, text⟩ w.now
        (if method = .cashOnDelivery then .pending else .completed) reference := by
  obtain ⟨o, a, text, e', ho, ha, rfl, hdone⟩ := h
  obtain rfl : e' = e := Outcome.returned.inj hr
  obtain ⟨reference, hmade⟩ := hdone.made
  refine ⟨hdone.get?, o, a, text, reference, ho, ha, ?_⟩
  cases method <;> exact hmade

end Payment

/-! ## Ledgers -/

/-- On every ledger an order is paid exactly if all that its payment demands is so, and the call
fails with the kind of the first demand that is not met otherwise. What is returned is stored, of
the total of the order, and completed, or pending without a reference if it is to be paid on
delivery. When the wallet is to pay, its balance must be within the range of decimals. -/
theorem World.pays_exactly (t : Terms) (w : World) (es : List Event) (user order : Nat)
    (method : Method) :
    let v := (w.withStore .empty).after t es
    let r := (Call.pay user order method).run t v
    let demands := Payment.demands t v user order method
    (method = .wallet →
      ∃ b, Balance.ofEntries? (v.store.query (Wallet.holdings user)) = some b) →
    ((∃ e, r.1 = .returned e) ↔ ∀ d ∈ demands, d.met) ∧
    (∀ before d after, demands = before ++ d :: after → (∀ x ∈ before, x.met) → ¬d.met →
      r.1.FailsAs d.kind) ∧
    ∀ e, r.1 = .returned e → r.2.store.get? e.id = some e ∧ e.user = user ∧
      e.order = some order ∧ e.kind = .payment ∧ e.method = method ∧
      (∃ o, v.orders.find? order = some o ∧ e.amount.value = o.total) ∧
      e.status = (if method = .cashOnDelivery then .pending else .completed) ∧
      (method = .cashOnDelivery → e.reference = none) := by
  intro v r demands hb
  have hcalm := (written_after (t := t) (w.calm_withStore .empty) es).1
  have hheeds : (Payment.pay t user order method).Heeds v (Payment.Pays v user order method)
      demands := Payment.heeds_pay t hcalm user order method hb
  have hreturns : ∀ o w', Payment.Pays v user order method o w' → ∃ e, o = .returned e := by
    rintro _ w' ⟨_, _, _, e, -, -, rfl, -⟩
    exact ⟨e, rfl⟩
  have hiff : (∃ e, r.1 = .returned e) ↔ ∀ d ∈ demands, d.met := hheeds.returns_iff hreturns
  refine ⟨hiff, ?_, fun e he => ?_⟩
  · intro before d after hds hbefore hd
    rw [hds] at hheeds
    exact hheeds.failsAs hbefore hd
  · have hpays := hheeds.yields (hiff.1 ⟨e, he⟩)
    obtain ⟨hget, o, a, text, reference, ho, ha, hmade⟩ := hpays.stored he
    have hwell := (wellFormed_after (t := t) (w.calm_withStore .empty) .empty : v.store.WellFormed)
    have hwell' := (((Call.pay user order method).upholds t).run hcalm hwell).2 e
      (Store.get?_eq_some.1 hget).1
    refine ⟨hget, hmade.user_eq, ?_, hmade.kind_eq, hmade.method_eq, ⟨o, ho, ?_⟩,
      hmade.status_eq, fun hcod => ?_⟩
    · exact Entry.order_eq_of_origin hmade.origin
    · rw [hmade.amount_eq, ha]
    · have hpending := hmade.status_eq
      rw [if_pos hcod] at hpending
      have hnot := mt hwell'.referenced.1 (by simp [hpending])
      simpa using hnot

/-- A wallet that holds ten pays an order for four. -/
theorem World.pays_exactly_from_wallet :
    let v := ((World.opening {} 0 ⟨0, 0⟩ fun _ => 0).withStore .empty).after {}
      [.user ⟨1, "Ada"⟩, .order ⟨7, 1, .ofWord 4, "PENDING"⟩,
        .call (.charge 1 (.ofWord 10) .adminCredit "")]
    let r := (Call.pay 1 7 .wallet).run {} v
    Balance.ofEntries? (v.store.query (Wallet.holdings 1)) = some ⟨.ofWord 10⟩ ∧
    (∀ d ∈ Payment.demands {} v 1 7 .wallet, d.met) ∧
    ∃ e, r.1 = .returned e ∧ r.2.store.get? e.id = some e ∧ e.amount.value = .ofWord 4 ∧
      e.status = .completed := by
  intro v r
  have hbalance : Balance.ofEntries? (v.store.query (Wallet.holdings 1)) = some ⟨.ofWord 10⟩ := by
    decide +kernel
  have horder : v.orders.find? 7 = some ⟨7, 1, .ofWord 4, "PENDING"⟩ := by decide +kernel
  have hmet : ∀ d ∈ Payment.demands {} v 1 7 .wallet, d.met := by
    simp only [Payment.demands, List.forall_mem_cons, horder, Option.some.injEq, forall_eq',
      hbalance]
    exact ⟨by decide, by decide, .inl trivial, ⟨⟨1, "Ada"⟩, by decide +kernel⟩, ⟨_, rfl⟩, trivial,
      by decide +kernel, by decide +kernel, by decide +kernel, fun _ => ⟨_, rfl, by decide +kernel⟩,
      nofun, nofun⟩
  obtain ⟨hiff, -, hstored⟩ := World.pays_exactly {} _ _ 1 7 .wallet fun _ => ⟨_, hbalance⟩
  obtain ⟨e, he⟩ := hiff.2 hmet
  obtain ⟨hget, -, -, -, -, ⟨o, ho, hamount⟩, hstatus, -⟩ := hstored e he
  obtain rfl := Option.some.inj (horder.symm.trans ho)
  exact ⟨hbalance, hmet, e, he, hget, hamount, hstatus⟩

end Paybook
