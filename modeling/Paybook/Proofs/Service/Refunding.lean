import Paybook.Proofs.Service.Paying

/-! # When payments are refunded

`Payment.refundDemands` lists what refunding a payment demands. A payment is refunded exactly if all
of it is so: a completed payment has an order and a method that gives money back, so behind the
checks nothing goes wrong. An order that was refunded is refunded in no continuation again. This is
`World.refunds_exactly`. -/

namespace Paybook

open Program Time

namespace Payment

/-- What refunding a payment demands, in the order in which it is looked for. -/
def refundDemands (s : Store) (payment : Nat) : List Demand :=
  [⟨payment ≠ 0, .invalidArgument⟩,
   ⟨∃ p, s.get? payment = some p, .notFound⟩,
   ⟨∀ p, s.get? payment = some p → p.kind = .payment, .preconditionFailed⟩,
   ⟨∀ p, s.get? payment = some p → p.status = .completed, .preconditionFailed⟩,
   ⟨∀ p, s.get? payment = some p → ∀ r ∈ s.entries, r.kind = .refund → r.order = p.order →
      r.status ≠ .completed, .preconditionFailed⟩]

/-- Whether a call returns an entry that a draft of a refund of a payment has become. -/
def GivesBack (w : World) (payment : Nat) (r : Outcome Entry) (w' : World) : Prop :=
  ∃ p o text e, w.store.get? payment = some p ∧ p.order = some o ∧ r = .returned e ∧
    (⟨p.user, some o, p.amount, .refund, p.method, text⟩ : Draft).Done w e w'

variable {w : World} {payment : Nat} {Q : Outcome Entry → World → Prop} {ds : List Demand}

/-- A well-formed payment has an order. -/
theorem heeds_orderOf {p : Entry} (hp : p.WellFormed) {f : Nat → Program Entry}
    (h : ∀ o, p.order = some o → p.kind = .payment → (f o).Heeds w Q ds) :
    (ofAttempt (orderOf payment p) >>= f).Heeds w Q
      (⟨p.kind = .payment, .preconditionFailed⟩ :: ds) := by
  refine heeds_ofAttempt (fun hkind => ?_) fun hkind => ?_
  · have hsome : p.order.isSome = true := hp.ordered.2 (by simp [hkind, EntryKind.ofOrder])
    obtain ⟨o, ho⟩ := Option.isSome_iff_exists.1 hsome
    exact ⟨o, orderOf_eq_ok.2 ⟨hkind, ho⟩, h o ho hkind⟩
  · rw [orderOf, if_neg hkind]
    exact ⟨_, rfl, rfl⟩

/-- No gateway is asked for a refund, so nothing is declined. -/
theorem yields_entrust_refund {d : Draft} (hw : w.Calm) (hs : d.Sound w.store)
    (hkind : d.kind = .refund) (hQ : ∀ e w', d.Done w e w' → Q (.returned e) w') :
    (Action.entrust d).program.Yields w Q := by
  refine (d.heeds_entrust hw hs hQ).1 fun desk hasked => ?_
  rw [Draft.desk?, hkind] at hasked
  cases hasked

/-- Refunding a payment of a well-formed store heeds its demands, and gives the money back when they
are met. -/
theorem heeds_refund (hw : w.Calm) (hpay : w.store.Payable) (hwell : w.store.WellFormed)
    (payment : Nat) (reason : String) :
    (refund payment reason).Heeds w (GivesBack w payment) (refundDemands w.store payment) := by
  refine heeds_requireId fun _ => heeds_load hw fun p hp => ?_
  have hmem := (Store.get?_eq_some.1 hp).1
  have hfound : ∀ P : Entry → Prop, P p ↔ ∀ p', w.store.get? payment = some p' → P p' := by
    intro P
    simp [hp]
  refine .of_iff (heeds_orderOf (hwell p hmem) fun o ho hkind => ?_)
    (hfound fun p => p.kind = .payment)
  -- The call runs alone, so the payment is the same when it is loaded again.
  have hload : (load payment).run w = (.returned p, w) := by rw [run_load hw, hp]
  refine heeds_acquire (heeds_bind_of_run hload ?_)
  refine heeds_require
    (decide_eq_true_iff.trans (hfound fun p => p.status = .completed)) fun _ => ?_
  refine .of_iff (heeds_none hw ?_) ?_
  · exact yields_entrust_refund hw (hpay p hmem hkind) rfl fun e w' hdone =>
      ⟨p, o, _, e, hp, ho, rfl, hdone⟩
  · rw [← ho]
    exact hfound fun p => ∀ r ∈ w.store.entries, r.kind = .refund → r.order = p.order →
      r.status ≠ .completed

/-- What the store is like after a refund: behind the other entries comes the completed refund, and
behind it the entry that charges the wallet if the wallet paid. -/
theorem GivesBack.stored {r : Outcome Entry} {w' : World} (h : GivesBack w payment r w') {e : Entry}
    (hr : r = .returned e) : w'.store.get? e.id = some e ∧ ∃ p o,
      w.store.get? payment = some p ∧ p.order = some o ∧ e.kind = .refund ∧
      e.status = .completed ∧ e.user = p.user ∧ e.order = some o ∧
      e.amount = p.amount ∧ e.method = p.method ∧
      (p.method ≠ .wallet → w'.store.entries = w.store.entries ++ [e]) ∧
      (p.method = .wallet → ∃ leg, w'.store.entries = w.store.entries ++ [e, leg] ∧
        leg.kind = .charge ∧ leg.status = .completed ∧ leg.method = .wallet ∧ leg.user = p.user ∧
        leg.amount = p.amount ∧ e.reference = some s!"WALLET-{leg.id}") := by
  obtain ⟨p, o, text, e', hp, ho, rfl, hdone⟩ := h
  obtain rfl : e' = e := Outcome.returned.inj hr
  refine ⟨hdone.get?, ?_⟩
  cases hdone with
  | alone method _ gains made =>
    exact ⟨p, o, hp, ho, made.kind_eq, made.status_eq, made.user_eq,
      Entry.order_eq_of_origin made.origin, made.amount_eq, made.method_eq,
      fun _ => gains.store.entries, fun hwallet => absurd hwallet method⟩
  | paired method legKind gains made legMade =>
    obtain rfl := Option.some.inj legKind
    exact ⟨p, o, hp, ho, made.kind_eq, made.status_eq, made.user_eq,
      Entry.order_eq_of_origin made.origin, made.amount_eq, made.method_eq,
      fun hne => absurd method hne, fun _ => ⟨_, gains.store.entries, legMade.kind_eq,
        legMade.status_eq, legMade.method_eq, legMade.user_eq, legMade.amount_eq,
        made.reference_eq⟩⟩

/-- Nothing of an order is refunded once the order has a completed refund. -/
theorem failsAs_refund_of_refunded (hw : w.Calm) (hpay : w.store.Payable)
    (hwell : w.store.WellFormed) (hn : w.store.Numbered) {r p : Entry} (hr : r ∈ w.store.entries)
    (hkind : r.kind = .refund) (hc : r.status = .completed) (hp : w.store.get? payment = some p)
    (ho : r.order = p.order) (reason : String) :
    ((refund payment reason).run w).1.FailsAs .preconditionFailed := by
  have hid : payment ≠ 0 := by
    obtain ⟨hle, -⟩ := hn.contains_iff.1 (Option.isSome_iff_exists.2 ⟨p, hp⟩)
    omega
  refine (heeds_refund hw hpay hwell payment reason).failsAs_of_kind (fun hmet => ?_) ?_
  · simp only [refundDemands, List.forall_mem_cons] at hmet
    obtain ⟨-, -, -, -, hnone, -⟩ := hmet
    exact hnone p hp r hr hkind ho hc
  · simp only [refundDemands, List.forall_mem_cons]
    exact ⟨fun h => absurd hid h, fun h => absurd ⟨p, hp⟩ h, fun _ => trivial, fun _ => trivial,
      fun _ => trivial, nofun⟩

end Payment

/-! ## Ledgers -/

/-- An order that has a completed refund on a ledger is refunded in no continuation. -/
theorem World.failsAs_refund_after (t : Terms) (w : World) (es es' : List Event) {payment : Nat}
    {r p : Entry} :
    let v := (w.withStore .empty).after t es
    r ∈ v.store.entries → r.kind = .refund → r.status = .completed →
    (v.after t es').store.get? payment = some p → r.order = p.order →
    ∀ reason,
      ((Call.refund payment reason).run t (v.after t es')).1.FailsAs .preconditionFailed := by
  intro v hr hkind hc hp ho reason
  have hempty := w.calm_withStore .empty
  have hcalm : v.Calm := (written_after hempty es).1
  have hkept : r ∈ (v.after t es').store.entries :=
    (written_after (t := t) hcalm es').2.grows.final r hr (Entry.isFinal_of_completed hc)
  have hv : v.after t es' = (w.withStore .empty).after t (es ++ es') :=
    (after_append t _ es es').symm
  rw [hv] at hp hkept ⊢
  obtain ⟨hcalm', hwritten⟩ := written_after (t := t) hempty (es ++ es')
  exact Payment.failsAs_refund_of_refunded hcalm' (payable_after t w _)
    (wellFormed_after hempty .empty) (hwritten.numbered .empty) hkept hkind hc hp ho reason

/-- On every ledger a payment is refunded exactly if all that its refund demands is so, and the call
fails with the kind of the first demand that is not met otherwise. The refund is completed, for the
user, the order, the amount and the method of the payment, which is left as it is. If the wallet
paid, one more entry puts the amount back, to which the refund refers; otherwise there is no other
entry. Whatever happens afterwards, no other refund of the order succeeds. -/
theorem World.refunds_exactly (t : Terms) (w : World) (es : List Event) (payment : Nat)
    (reason : String) :
    let v := (w.withStore .empty).after t es
    let r := (Call.refund payment reason).run t v
    let demands := Payment.refundDemands v.store payment
    ((∃ e, r.1 = .returned e) ↔ ∀ d ∈ demands, d.met) ∧
    (∀ before d after, demands = before ++ d :: after → (∀ x ∈ before, x.met) → ¬d.met →
      r.1.FailsAs d.kind) ∧
    ∀ e, r.1 = .returned e → ∃ p o, v.store.get? payment = some p ∧ p.order = some o ∧
      e.kind = .refund ∧ e.status = .completed ∧ e.user = p.user ∧ e.order = some o ∧
      e.amount = p.amount ∧ e.method = p.method ∧
      (p.method ≠ .wallet → r.2.store.entries = v.store.entries ++ [e]) ∧
      (p.method = .wallet → ∃ leg, r.2.store.entries = v.store.entries ++ [e, leg] ∧
        leg.kind = .charge ∧ leg.status = .completed ∧ leg.method = .wallet ∧ leg.user = p.user ∧
        leg.amount = p.amount ∧ e.reference = some s!"WALLET-{leg.id}") ∧
      r.2.store.get? payment = some p ∧
      ∀ es' payment' reason' p', (r.2.after t es').store.get? payment' = some p' →
        p'.order = some o →
        ((Call.refund payment' reason').run t (r.2.after t es')).1.FailsAs .preconditionFailed := by
  intro v r demands
  have hempty := w.calm_withStore .empty
  have hcalm : v.Calm := (written_after hempty es).1
  have hheeds : (Payment.refund payment reason).Heeds v (Payment.GivesBack v payment) demands :=
    Payment.heeds_refund hcalm (payable_after t w es) (wellFormed_after hempty .empty) payment
      reason
  have hreturns : ∀ o w', Payment.GivesBack v payment o w' → ∃ e, o = .returned e := by
    rintro _ w' ⟨_, _, _, e, -, -, rfl, -⟩
    exact ⟨e, rfl⟩
  have hiff : (∃ e, r.1 = .returned e) ↔ ∀ d ∈ demands, d.met := hheeds.returns_iff hreturns
  refine ⟨hiff, ?_, fun e he => ?_⟩
  · intro before d after hds hbefore hd
    rw [hds] at hheeds
    exact hheeds.failsAs hbefore hd
  have hmet := hiff.1 ⟨e, he⟩
  obtain ⟨hget, p, o, hp, ho, hkind, hc, huser, horder, hamount, hmethod, hentries⟩ :=
    (hheeds.yields hmet).stored he
  simp only [demands, Payment.refundDemands, List.forall_mem_cons] at hmet
  obtain ⟨-, -, -, hcompleted, -⟩ := hmet
  have hwritten := (Event.written (t := t) (.call (.refund payment reason)) hcalm).2
  obtain ⟨hmem, rfl⟩ := Store.get?_eq_some.1 hp
  have hkept := hwritten.grows.final p hmem (Entry.isFinal_of_completed (hcompleted p hp))
  refine ⟨p, o, hp, ho, hkind, hc, huser, horder, hamount, hmethod, hentries.1, hentries.2,
    Store.get?_eq_some.2 ⟨hkept, rfl⟩, ?_⟩
  intro es' payment' reason' p' hp' ho'
  have hstored : e ∈ r.2.store.entries := (Store.get?_eq_some.1 hget).1
  have hledger : r.2 = (w.withStore .empty).after t (es ++ [.call (.refund p.id reason)]) := by
    rw [after_append]
    rfl
  rw [hledger] at hp' hstored ⊢
  exact failsAs_refund_after t w _ es' hstored hkind hc hp' (horder.trans ho'.symm) reason'

end Paybook
