import Paybook.Proofs.Entry.Range
import Paybook.Proofs.Program.Proceeds
import Paybook.Proofs.Service.Exactness
import Paybook.Proofs.Service.Legs
import Paybook.Proofs.Service.Outcomes

/-! # Calls whose sums are in range

A call stops when a sum does not fit a decimal, and with it the whole session. What is added up are
entries of one user and perhaps the amount that is asked for. As long as these, each rounded up to
whole units, do not exceed the magnitude of a decimal together, no operation, no query and no report
stops: `Session.stays_in_range`. Nothing keeps them from exceeding it:
`Session.report_overflowed`. -/

namespace Paybook

open Program Time

/-- A program that books an entry has changed something. -/
theorem Program.proceeds_book {α : Type} {w : World} (hw : w.Calm) (d : Draft)
    (f : Entry → Program α) : (book d >>= f).Proceeds w := by
  intro hrun
  have hlast : (w.answer (.insert d)).2.store.lastId = w.store.lastId + 1 := by
    rw [hw.answer_insert]
    rfl
  have hle := (precedes_of_mem_worlds (hw.answer (.insert d)) (start_mem_worlds
    ((ofAttempt (w.answer (.insert d)).1).bind f) _)).2.lastId
  have hend := congrArg (fun r : Outcome α × World => r.2.store.lastId) hrun
  change (((ofAttempt (w.answer (.insert d)).1).bind f).run
    (w.answer (.insert d)).2).2.store.lastId = w.store.lastId at hend
  omega

/-! ## Checks -/

namespace Store

/-- The whole units that it takes to hold the amounts of all entries of a user. -/
def booked (s : Store) (user : Nat) : Nat := extents (s.query { user := some user })

variable {s : Store} {user : Nat}

theorem selects_user {e : Entry} :
    ({ user := some user } : Selection).selects e = true ↔ e.user = user := by
  constructor
  · exact fun h => (Selection.selects_iff.1 h).1 user rfl
  · rintro rfl
    simp [Selection.selects]

theorem user_eq_of_selects {sel : Selection} {e : Entry} (h : sel.user = some user)
    (he : sel.selects e = true) : e.user = user :=
  (Selection.selects_iff.1 he).1 user h

/-- What is found among the entries of a user takes no more than all of them. -/
theorem extents_query_le {sel : Selection} (h : sel.user = some user) :
    extents (s.query sel) ≤ s.booked user :=
  extents_le_of_sublist (List.monotone_filter_right _ fun _ he =>
    selects_user.2 (user_eq_of_selects h he))

/-- Completed entries of a user and a pending one take no more than all of them. -/
theorem extents_query_add_extent_le {sel : Selection} {e : Entry} (h : sel.user = some e.user)
    (hstatus : sel.status = some .completed) (he : e ∈ s.entries) (hp : e.status = .pending) :
    extents (s.query sel) + e.extent ≤ s.booked e.user := by
  have hfound : s.query sel = (s.query { user := some e.user }).filter sel.selects := by
    rw [query, query, List.filter_filter]
    refine List.filter_congr fun x _ => ?_
    rw [Bool.eq_iff_iff, Bool.and_eq_true]
    exact ⟨fun hx => ⟨hx, selects_user.2 (user_eq_of_selects h hx)⟩, And.left⟩
  rw [hfound]
  refine extents_filter_add_extent_le (mem_query.2 ⟨he, selects_user.2 rfl⟩) ?_
  exact Selection.not_selects_of_status hstatus (by simp [hp])

end Store

namespace Wallet

variable {t : Terms} {w : World} {user : Nat} {kind : EntryKind} {a : Amount}

theorem clears_requireUser (hw : w.Calm) (user : Nat) : (requireUser user).Clears w :=
  (clears_request (r := .user user) trivial fun _ => rfl).bind hw
    (fun _ => vets_require (Failure.isRefusal_notFound _)) fun _ _ => proceeds_require _ _

theorem clears_adjustment (user : Nat) (amount : Decimal) (reason : String) (admin : Nat) :
    (adjustment user amount reason admin).Clears w := by
  refine ⟨vets_adjustment _ _ _ _, ?_⟩
  refine proceeds_require_bind fun _ => ?_
  refine proceeds_require_bind fun _ => ?_
  refine proceeds_require_bind fun _ => ?_
  exact proceeds_ofAttempt _

theorem clears_holds (hw : w.Calm) (h : w.store.booked user ≤ Decimal.maxMagnitude) :
    (holds user).Clears w := by
  refine ⟨vets_holds user, ?_⟩
  rw [Proceeds, run_holds hw]
  exact proceeds_inRange (Balance.ofEntries?_of_extents ((Store.extents_query_le rfl).trans h))

theorem clears_requireCovered (hw : w.Calm) (h : w.store.booked user ≤ Decimal.maxMagnitude)
    (a : Amount) : (requireCovered user a).Clears w :=
  ⟨vets_requireCovered user a, (clears_holds hw h).proceeds_bind hw fun _ _ => proceeds_require _ _⟩

/-- A daily limit is decided when the entries of the day and the amount are in range together. -/
theorem clears_requireWithinDay (hw : w.Calm) {today : Window}
    (htoday : t.zone.dayAround? w.now = some today)
    (h : extents (w.store.query (doneWithin user kind today)) + a.value.extent ≤
      Decimal.maxMagnitude) : (requireWithinDay t user kind a).Clears w := by
  refine ⟨vets_requireWithinDay _ _ _ _, ?_⟩
  cases hlimit : dailyLimit? t.settings.wallet kind with
  | none =>
    unfold requireWithinDay
    rw [hlimit]
    exact proceeds_pure ()
  | some limit =>
    obtain ⟨used, hused, hle⟩ := sum?_of_extents ((Nat.le_add_right _ _).trans h)
    obtain ⟨sum, hsum, -⟩ := Decimal.add?_of_extent ((Nat.add_le_add_right hle _).trans h)
    rw [Proceeds, run_requireWithinDay hw hlimit htoday, requireRoom, hused,
      run_bind_of_run (a := used) rfl, hsum, run_bind_of_run (a := sum) rfl]
    exact proceeds_require _ _

end Wallet

namespace Payment

variable {t : Terms} {w : World} {e : Entry}

theorem clears_hasDone (hw : w.Calm) (order : Nat) (kind : EntryKind) :
    (hasDone order kind).Clears w :=
  (clears_select hw _).bind hw (fun _ => vets_pure _) fun _ _ => proceeds_pure _

theorem clears_requireUnpaid (hw : w.Calm) (order : Nat) : (requireUnpaid order).Clears w :=
  ⟨vets_requireUnpaid order,
    (clears_hasDone hw order .payment).proceeds_bind hw fun _ _ => proceeds_require _ _⟩

theorem clears_requireUnrefunded (hw : w.Calm) (order : Nat) :
    (requireUnrefunded order).Clears w :=
  ⟨vets_requireUnrefunded order,
    (clears_hasDone hw order .refund).proceeds_bind hw fun _ _ => proceeds_require _ _⟩

/-- Whatever the completion of a pending entry would change is decided when the entries of the user
are in range: the entry is one of them. -/
theorem clears_requireCompletable (hw : w.Calm) {today : Window}
    (htoday : t.zone.dayAround? w.now = some today) (he : e ∈ w.store.entries)
    (hp : e.status = .pending) (h : w.store.booked e.user ≤ Decimal.maxMagnitude) :
    (requireCompletable t e).Clears w := by
  have hday : (Wallet.requireWithinDay t e.user e.kind e.amount).Clears w :=
    Wallet.clears_requireWithinDay hw htoday
      ((Store.extents_query_add_extent_le rfl rfl he hp).trans h)
  refine ⟨vets_requireCompletable t e, ?_⟩
  unfold requireCompletable
  split
  · exact (Wallet.clears_requireCovered hw h _).proceeds_bind hw fun _ _ => hday.proceeds
  · exact (clears_requireUnpaid hw _).proceeds
  · refine (clears_hasDone hw _ _).proceeds_bind hw fun _ _ => ?_
    exact proceeds_require_bind fun _ => (clears_requireUnrefunded hw _).proceeds
  · rintro ⟨⟩
  · rintro ⟨⟩
  · exact hday.proceeds

end Payment

/-! ## Calls -/

theorem Amount.ofDecimal_eq_ok {d : Decimal} {a : Amount} (h : ofDecimal d = .ok a) :
    a.value = d := by
  unfold ofDecimal at h
  cases hd : ofDecimal? d with
  | some a' =>
    rw [hd] at h
    cases h
    exact ofDecimal?_eq_some.1 hd
  | none =>
    rw [hd] at h
    cases h

/-- A settlement of a pending entry comes to an end. -/
theorem Action.proceeds_settle {w : World} {e : Entry} {status : Status} (hw : w.Calm)
    (hget : w.store.get? e.id = some e) (hp : e.status = .pending) (hfinal : status ≠ .pending)
    (reference notes : Option String) :
    (settle e status reference notes).program.Proceeds w := by
  intro hrun
  have heffect :=
    (Action.risks (a := .settle e status reference notes) hw ⟨hget, hp, hfinal⟩).yields
  unfold Yields at heffect
  rw [hrun] at heffect
  cases heffect

namespace Call

/-- The whole units that it takes to hold the amount that is checked against a daily limit without
being booked yet. -/
def asked : Call → Nat
  | charge _ amount _ _ | withdraw _ amount _ _ => amount.extent
  | withdrawForPayment _ _ _ | adminCredit _ _ _ _ | adminDebit _ _ _ _ | pay _ _ _ | refund _ _
  | settle _ _ _ _ => 0

/-- The user whose entries a call adds up, if it does. -/
def summed? (s : Store) : Call → Option Nat
  | charge user _ _ _ | withdraw user _ _ _ | withdrawForPayment user _ _ | adminDebit user _ _ _
  | pay user _ .wallet => some user
  | settle entry .completed _ _ => (s.get? entry).map Entry.user
  | adminCredit _ _ _ _ | pay _ _ _ | refund _ _ | settle _ _ _ _ => none

/-- Whether what is booked for the user whose entries a call adds up is in range together with the
amount that is asked for. -/
def HasRoom (c : Call) (s : Store) : Prop :=
  ∀ user, c.summed? s = some user → s.booked user + c.asked ≤ Decimal.maxMagnitude

theorem HasRoom.extents_add_asked_le {c : Call} {s : Store} {user : Nat} (h : c.HasRoom s)
    (hc : c.summed? s = some user) {sel : Selection} (hsel : sel.user = some user) :
    extents (s.query sel) + c.asked ≤ Decimal.maxMagnitude :=
  (Nat.add_le_add_right (Store.extents_query_le hsel) _).trans (h user hc)

section Proceeds

variable {t : Terms} {w : World} {today : Window}

theorem proceeds_charge (hw : w.Calm) (htoday : t.zone.dayAround? w.now = some today)
    {user : Nat} {amount : Decimal} {method : Method} {description : String}
    (h : (charge user amount method description).HasRoom w.store) :
    (Wallet.charge t user amount method description).Proceeds w := by
  refine proceeds_require_bind fun _ => ?_
  refine proceeds_ofAttempt_bind fun a ha => ?_
  obtain rfl := Amount.ofDecimal_eq_ok ha
  refine proceeds_require_bind fun _ => ?_
  refine proceeds_require_bind fun _ => ?_
  refine (Wallet.clears_requireUser hw user).proceeds_bind hw fun _ _ => ?_
  refine proceeds_acquire ?_
  have hroom : (Wallet.requireWithinDay t user .charge a).Clears w :=
    Wallet.clears_requireWithinDay hw htoday (h.extents_add_asked_le rfl rfl)
  exact hroom.proceeds_bind hw fun _ _ => proceeds_book hw _ _

theorem proceeds_withdraw (hw : w.Calm) (htoday : t.zone.dayAround? w.now = some today)
    {user : Nat} {amount : Decimal} {account reason : String}
    (h : (withdraw user amount account reason).HasRoom w.store) :
    (Wallet.withdraw t user amount account reason).Proceeds w := by
  refine proceeds_require_bind fun _ => ?_
  refine proceeds_ofAttempt_bind fun a ha => ?_
  obtain rfl := Amount.ofDecimal_eq_ok ha
  have hbooked := (Nat.le_add_right _ _).trans (h user rfl)
  refine proceeds_require_bind fun _ => ?_
  refine proceeds_require_bind fun _ => ?_
  refine (Wallet.clears_requireUser hw user).proceeds_bind hw fun _ _ => ?_
  refine proceeds_acquire ?_
  refine (Wallet.clears_requireCovered hw hbooked a).proceeds_bind hw fun _ _ => ?_
  have hroom : (Wallet.requireWithinDay t user .withdrawal a).Clears w :=
    Wallet.clears_requireWithinDay hw htoday (h.extents_add_asked_le rfl rfl)
  refine hroom.proceeds_bind hw fun _ _ => ?_
  -- The entry is booked and left as it is.
  rw [← Program.bind_pure (book _)]
  exact proceeds_book hw _ _

theorem proceeds_withdrawForPayment (hw : w.Calm) {user : Nat} {amount : Decimal}
    {reference : String} (h : (withdrawForPayment user amount reference).HasRoom w.store) :
    (Wallet.withdrawForPayment user amount reference).Proceeds w := by
  refine proceeds_require_bind fun _ => ?_
  refine proceeds_ofAttempt_bind fun a _ => ?_
  refine proceeds_acquire ?_
  exact (Wallet.clears_requireCovered hw (h user rfl) a).proceeds_bind hw fun _ _ =>
    proceeds_book hw _ _

theorem proceeds_adminCredit (hw : w.Calm) (user : Nat) (amount : Decimal) (reason : String)
    (admin : Nat) : (Wallet.adminCredit user amount reason admin).Proceeds w := by
  refine (Wallet.clears_adjustment _ _ _ _).proceeds_bind hw fun a _ => ?_
  refine (Wallet.clears_requireUser hw user).proceeds_bind hw fun _ _ => ?_
  exact proceeds_acquire (proceeds_book hw _ _)

theorem proceeds_adminDebit (hw : w.Calm) {user : Nat} {amount : Decimal} {reason : String}
    {admin : Nat} (h : (adminDebit user amount reason admin).HasRoom w.store) :
    (Wallet.adminDebit user amount reason admin).Proceeds w := by
  refine (Wallet.clears_adjustment _ _ _ _).proceeds_bind hw fun a _ => ?_
  refine (Wallet.clears_requireUser hw user).proceeds_bind hw fun _ _ => ?_
  refine proceeds_acquire ?_
  exact (Wallet.clears_requireCovered hw (h user rfl) a).proceeds_bind hw fun _ _ =>
    proceeds_book hw _ _

theorem proceeds_pay (hw : w.Calm) {user order : Nat} {method : Method}
    (h : (pay user order method).HasRoom w.store) :
    (Payment.pay t user order method).Proceeds w := by
  refine proceeds_require_bind fun _ => ?_
  refine proceeds_require_bind fun _ => ?_
  refine proceeds_require_bind fun _ => ?_
  refine (Wallet.clears_requireUser hw user).proceeds_bind hw fun _ _ => ?_
  refine (clears_request (r := .order order) trivial fun _ => rfl).proceeds_bind hw
    fun found _ => ?_
  refine proceeds_ofAttempt_bind fun o _ => ?_
  refine proceeds_require_bind fun _ => ?_
  refine proceeds_require_bind fun _ => ?_
  refine proceeds_ofAttempt_bind fun a _ => ?_
  refine proceeds_acquire ?_
  refine (Payment.clears_requireUnpaid hw order).proceeds_bind hw fun _ _ => ?_
  split
  · next hmethod =>
    subst hmethod
    exact (Wallet.clears_requireCovered hw (h user rfl) a).proceeds_bind hw fun _ _ =>
      proceeds_book hw _ _
  · exact proceeds_book hw _ _

theorem proceeds_refund (hw : w.Calm) (payment : Nat) (reason : String) :
    (Payment.refund payment reason).Proceeds w := by
  refine proceeds_require_bind fun _ => ?_
  refine (clears_load hw payment).proceeds_bind hw fun seen _ => ?_
  refine proceeds_ofAttempt_bind fun order _ => ?_
  refine proceeds_acquire ?_
  refine (clears_load hw payment).proceeds_bind hw fun paid _ => ?_
  refine proceeds_require_bind fun _ => ?_
  exact (Payment.clears_requireUnrefunded hw order).proceeds_bind hw fun _ _ =>
    proceeds_book hw _ _

theorem proceeds_settle (hw : w.Calm) (htoday : t.zone.dayAround? w.now = some today)
    {entry : Nat} {status : Status} {reference notes : Option String}
    (h : (settle entry status reference notes).HasRoom w.store) :
    (Payment.settle t entry status reference notes).Proceeds w := by
  refine proceeds_require_bind fun _ => ?_
  refine proceeds_require_bind fun hfinal => ?_
  refine (clears_load hw entry).proceeds_bind hw fun _ _ => ?_
  refine proceeds_acquire ?_
  refine (clears_load hw entry).proceeds_bind hw fun e he => ?_
  refine proceeds_ofAttempt_bind fun _ hpending => ?_
  have hfinal : status ≠ .pending := of_decide_eq_true hfinal
  have hpending := Entry.checkPending_eq_ok.1 hpending
  have hget := (run_load_eq_returned hw).1 he
  obtain ⟨hmem, rfl⟩ := Store.get?_eq_some.1 hget
  cases status with
  | completed =>
    have hbooked := h e.user (congrArg (Option.map Entry.user) hget)
    rw [Payment.settleTo_completed]
    exact (Payment.clears_requireCompletable hw htoday hmem hpending hbooked).proceeds_bind hw
      fun _ _ => Action.proceeds_settle hw hget hpending hfinal _ _
  | failed | cancelled => exact Action.proceeds_settle hw hget hpending hfinal none _
  | pending => exact absurd rfl hfinal

/-- A call does not stop at a check when the day is dated and there is room. -/
theorem proceeds (hw : w.Calm) (htoday : t.zone.dayAround? w.now = some today) {c : Call}
    (h : c.HasRoom w.store) : (c.program t).Proceeds w := by
  cases c with
  | charge => exact proceeds_charge hw htoday h
  | withdraw => exact proceeds_withdraw hw htoday h
  | withdrawForPayment => exact proceeds_withdrawForPayment hw h
  | adminCredit => exact proceeds_adminCredit hw _ _ _ _
  | adminDebit => exact proceeds_adminDebit hw h
  | pay => exact proceeds_pay hw h
  | refund => exact proceeds_refund hw _ _
  | settle => exact proceeds_settle hw htoday h

/-- A call that could only stop at a check does not stop at all. -/
theorem not_overflowed (hw : w.Calm) (hpay : w.store.Payable)
    (htoday : t.zone.dayAround? w.now = some today) {c : Call} (h : c.HasRoom w.store) :
    (c.run t w).1 ≠ .overflowed := by
  intro ho
  obtain ⟨a, hplan, heffect⟩ := c.effect t hw hpay
  have hends := hplan.ends heffect
  have hstill : (c.run t w).2 = w := by
    rw [ho] at hends
    revert hends
    generalize (c.run t w).2 = w'
    rintro ⟨⟩
    rfl
  exact proceeds hw htoday h (Prod.ext ho hstill)

end Proceeds

end Call

/-! ## Queries -/

section Queries

variable {w : World} {user : Nat}

theorem Wallet.clears_balance (hw : w.Calm) (h : w.store.booked user ≤ Decimal.maxMagnitude) :
    (balance user).Clears w :=
  ⟨(Inquiry.balance user).vets, proceeds_require_bind fun _ => (clears_holds hw h).proceeds⟩

namespace History

/-- A listing of entries of a user takes no more than all of them, in whatever order. -/
theorem extents_newestFirst_le {sel : Selection} (h : sel.user = some user) :
    extents (newestFirst (w.store.query sel)) ≤ w.store.booked user := by
  rw [extents_perm (newestFirst_perm _)]
  exact Store.extents_query_le h

theorem clears_orderSummary (hw : w.Calm) (h : w.store.booked user ≤ Decimal.maxMagnitude) :
    (orderSummary user).Clears w := by
  refine ⟨(Inquiry.orderSummary user).vets, ?_⟩
  rw [orderSummary, ofUser, LawfulMonad.bind_assoc]
  refine proceeds_require_bind fun _ => ?_
  rw [Proceeds, run_bind_of_run (run_fetch hw _)]
  exact proceeds_inRange (OrderSummary.of?_of_extents ((extents_newestFirst_le rfl).trans h))

theorem clears_walletSummary (hw : w.Calm) (h : w.store.booked user ≤ Decimal.maxMagnitude) :
    (walletSummary user).Clears w := by
  refine ⟨(Inquiry.walletSummary user).vets, ?_⟩
  rw [walletSummary, ofWallet, LawfulMonad.bind_assoc]
  refine proceeds_require_bind fun _ => ?_
  rw [Proceeds, run_bind_of_run (run_fetch hw _)]
  exact proceeds_inRange (WalletSummary.of?_of_extents ((extents_newestFirst_le rfl).trans h))

end History

end Queries

/-! ## Sessions -/

namespace Session

theorem clears_line {w : World} {user : Nat} (hw : w.Calm)
    (h : w.store.booked user ≤ Decimal.maxMagnitude) : (line user).Clears w := by
  have hsummary := History.clears_orderSummary hw h
  refine (Wallet.clears_balance hw h).bind hw (fun _ => hsummary.vets.bind fun _ => vets_pure _)
    fun _ _ => ?_
  exact hsummary.proceeds_bind hw fun _ _ => proceeds_pure _

theorem clears_lines {w : World} (hw : w.Calm) {users : List Nat}
    (h : ∀ user ∈ users, w.store.booked user ≤ Decimal.maxMagnitude) :
    (lines users).Clears w := by
  induction users with
  | nil => exact ⟨vets_pure _, proceeds_pure _⟩
  | cons user users ih =>
    have hrest := ih fun u hu => h u (List.mem_cons_of_mem user hu)
    refine (clears_line hw (h user List.mem_cons_self)).bind hw
      (fun _ => hrest.vets.bind fun _ => vets_pure _) fun _ _ => ?_
    exact hrest.proceeds_bind hw fun _ _ => proceeds_pure _

/-- The end of an operation is that of the call it makes. -/
theorem apply_overflowed {s : Session} {o : Operation} (h : (s.apply o).1 = .overflowed) :
    ∃ c, s.call? o = some c ∧ (c.run s.terms s.world).1 = .overflowed := by
  unfold apply at h
  cases hc : s.call? o with
  | none =>
    rw [hc] at h
    cases h
  | some c =>
    refine ⟨c, rfl, ?_⟩
    rw [hc] at h
    rcases hrun : c.run s.terms s.world with ⟨_ | _ | _, w⟩
    · simp [hrun] at h
    · simp [hrun] at h
    · rfl

/-- Whatever has been done in a session: no operation at a time whose local day is dated stops while
the amounts of the user whose entries it adds up, with the one that is asked for, each rounded up to
whole units, do not exceed the magnitude of a decimal together; no query about a user whose amounts
do not; and not the report, while those of no registered user do. -/
theorem stays_in_range (s : Session) (ops : List (Instant × Operation)) :
    let v := ({ s with world := s.world.withStore .empty } : Session).after ops
    (∀ now o, (v.terms.zone.dayAround? now).isSome →
      (∀ c, v.call? o = some c → c.HasRoom v.world.store) →
        (({ v with world := v.world.atTime now } : Session).apply o).1 ≠ .overflowed) ∧
    (∀ user, v.world.store.booked user ≤ Decimal.maxMagnitude →
      ((Wallet.balance user).run v.world).1 ≠ .overflowed ∧
      ((History.orderSummary user).run v.world).1 ≠ .overflowed ∧
      ((History.walletSummary user).run v.world).1 ≠ .overflowed) ∧
    ((∀ user ∈ v.world.users.ids, v.world.store.booked user ≤ Decimal.maxMagnitude) →
      v.report ≠ .overflowed) := by
  intro v
  obtain ⟨es, -, hafter⟩ := after_eq_after { s with world := s.world.withStore .empty } ops
  have hcalm : v.world.Calm := by
    rw [hafter]
    exact (World.written_after (s.world.calm_withStore .empty) es).1
  have hpay : v.world.store.Payable := by
    rw [hafter]
    exact World.payable_after s.terms s.world es
  refine ⟨fun now o hday hroom hstop => ?_, fun user h => ⟨?_, ?_, ?_⟩, fun h => ?_⟩
  · obtain ⟨c, hc, hrun⟩ := apply_overflowed hstop
    obtain ⟨today, htoday⟩ := Option.isSome_iff_exists.1 hday
    exact Call.not_overflowed (w := v.world.atTime now) hcalm hpay htoday (hroom c hc) hrun
  · exact (Wallet.clears_balance hcalm h).not_overflowed hcalm
  · exact (History.clears_orderSummary hcalm h).not_overflowed hcalm
  · exact (History.clears_walletSummary hcalm h).not_overflowed hcalm
  · exact (clears_lines hcalm h).not_overflowed hcalm

/-- After a credit of ten there is room for a charge of five on the next day, for queries and for
the report. -/
theorem stays_in_range_after_credit :
    let s := opening {} 0 1 .utc ⟨0, 0⟩ fun _ => 0
    let v := ({ s with world := s.world.withStore .empty } : Session).after
      [(⟨0, 0⟩, .user 1 "Ada"), (⟨0, 0⟩, .adminCredit 1 (.ofWord 10) "gift")]
    (({ v with world := v.world.atTime ⟨86400, 0⟩ } : Session).apply
      (.charge 1 (.ofWord 5) .card "")).1 ≠ .overflowed ∧
    ((Wallet.balance 1).run v.world).1 ≠ .overflowed ∧ v.report ≠ .overflowed := by
  intro s v
  obtain ⟨hoperations, hqueries, hreport⟩ := stays_in_range s
    [(⟨0, 0⟩, .user 1 "Ada"), (⟨0, 0⟩, .adminCredit 1 (.ofWord 10) "gift")]
  have hbooked : v.world.store.booked 1 = 10 := by decide +kernel
  have hmax : v.world.store.booked 1 ≤ Decimal.maxMagnitude := by rw [hbooked]; decide
  refine ⟨hoperations _ _ (by decide +kernel) ?_, (hqueries 1 hmax).1, hreport ?_⟩
  · rintro _ ⟨⟩ _ ⟨⟩
    change v.world.store.booked 1 + (Decimal.ofWord 5).extent ≤ Decimal.maxMagnitude
    rw [hbooked]
    decide
  · have hids : v.world.users.ids = [1] := by decide +kernel
    rw [hids]
    simpa using hmax

/-- Two credits that are read from a table and exceed the magnitude of a decimal together. Both are
booked; then the report stops, and so does any operation that adds them up. -/
theorem report_overflowed :
    let much : Decimal := { negative := false, magnitude := 7 * 10 ^ 28, scale := 0 }
    let ops : List Operation :=
      [.user 1 "Ada", .adminCredit 1 much "gift", .adminCredit 1 much "gift"]
    let v := (opening {} 0 1 .utc ⟨0, 0⟩ fun _ => 0).after (ops.map fun o => (⟨0, 0⟩, o))
    Operation.ofTable ("op,user,amount,note\nuser,1,,Ada\nadmin_credit,1,7e28,gift\n" ++
        "admin_credit,1,7e28,gift\n").toUTF8.toList = ops.map .ok ∧
      v.world.store.entries.map Entry.status = [.completed, .completed] ∧
      v.report = .overflowed ∧ ((Wallet.balance 1).run v.world).1 = .overflowed ∧
      (v.apply (.adminDebit 1 (.ofWord 5) "fee")).1 = .overflowed := by
  refine ⟨?_, ?_, ?_, ?_, ?_⟩ <;> decide +kernel

end Session

end Paybook
