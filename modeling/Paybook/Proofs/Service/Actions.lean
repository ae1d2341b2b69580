import Paybook.Proofs.Service.Phases
import Paybook.Proofs.Service.Views

/-! # What calls come to

Behind its checks a call comes to one of few actions: it refuses, stops, books an entry and brings
it to its end, or settles one. `Call.Plans` says which ones a call may come to, with what its checks
have made sure of, and `Call.comes` that it comes to one of these without having changed
anything. -/

namespace Paybook

open Program Time

/-! ## What checks make sure of -/

/-- The day around an instant, where it can be represented. -/
theorem Time.Zone.dayAround_of_dayAround? {z : Zone} {now : Instant} {today : Window}
    (h : z.dayAround? now = some today) : z.dayAround now = today := by
  unfold dayAround? at h
  split at h
  · exact Option.some.inj h
  · cases h

namespace Store

/-- Whether the daily limit of a user leaves room for an amount at a time. -/
def WithinDay (s : Store) (t : Terms) (now : Instant) (user : Nat) (kind : EntryKind)
    (a : Amount) : Prop :=
  ∀ limit, Wallet.dailyLimit? t.settings.wallet kind = some limit → ∃ used total,
    Decimal.sum? ((s.query (Wallet.doneWithin user kind (t.zone.dayAround now))).map
      fun e => e.amount.value) = some used ∧
    used.add? a.value = some total ∧ total ≤ limit

/-- Whether every payment was made by a method that orders can be paid by. -/
def Payable (s : Store) : Prop :=
  ∀ e ∈ s.entries, e.kind = .payment → Payment.canPay e.method = true

end Store

section Checks

variable {w : World} {t : Terms} {user : Nat} {kind : EntryKind} {a : Amount}

theorem Wallet.run_requireCovered_eq_returned (hw : w.Calm) :
    ((requireCovered user a).run w).1 = .returned () ↔ w.store.Covers user a := by
  rw [requireCovered, (vets_holds user).run_bind_eq_returned hw]
  simp only [run_holds hw, run_inRange_eq_returned, run_require_eq_returned, Store.Covers]

theorem Store.WithinDay.of_run (hw : w.Calm)
    (h : ((Wallet.requireWithinDay t user kind a).run w).1 = .returned ()) :
    w.store.WithinDay t w.now user kind a := by
  intro limit hlimit
  unfold Wallet.requireWithinDay at h
  rw [hlimit] at h
  obtain ⟨today, htoday, h⟩ := ((vets_inRange _).run_bind_eq_returned hw).1 h
  obtain ⟨entries, hentries, h⟩ := ((vets_select _).run_bind_eq_returned hw).1 h
  obtain ⟨used, hused, h⟩ := ((vets_inRange _).run_bind_eq_returned hw).1 h
  obtain ⟨total, htotal, h⟩ := ((vets_inRange _).run_bind_eq_returned hw).1 h
  have hle : total ≤ limit := of_decide_eq_true (run_require_eq_returned.1 h)
  rw [run_inRange_eq_returned] at htoday hused htotal
  rw [run_select hw] at hentries
  cases hentries
  obtain rfl := Zone.dayAround_of_dayAround? htoday
  exact ⟨used, total, hused, htotal, hle⟩

/-- Whatever may be completed stays within its daily limit. Payments and refunds have none. -/
theorem Store.WithinDay.of_completable {e : Entry} (hw : w.Calm)
    (h : ((Payment.requireCompletable t e).run w).1 = .returned ()) :
    w.store.WithinDay t w.now e.user e.kind e.amount := by
  unfold Payment.requireCompletable at h
  cases hkind : e.kind with
  | charge =>
    rw [hkind] at h
    exact .of_run hw h
  | withdrawal =>
    rw [hkind] at h
    obtain ⟨_, -, h⟩ := ((Wallet.vets_requireCovered _ _).run_bind_eq_returned hw).1 h
    exact .of_run hw h
  | payment | refund => exact fun _ h => by cases h

end Checks

/-! ## Actions -/

/-- Moves the money of a new entry. That of a withdrawal is moved by the bank. -/
def Draft.move (d : Draft) (e : Entry) : Program Entry :=
  match d.kind with
  | .charge => Wallet.fund e d.method
  | .withdrawal => pure e
  | .payment => Payment.collect e d.method
  | .refund => Payment.giveBack e d.method

/-- Brings a pending entry to a final status. -/
def Payment.conclude (e : Entry) (status : Status) (reference notes : Option String) :
    Program Entry :=
  match status with
  | .completed => annotate notes e >>= finish reference
  | .failed => change (.fail (notes.getD "Reported failed by settlement callback")) e >>= update
  | .cancelled => change (.cancel (notes.getD "Cancelled by settlement callback")) e >>= update
  | .pending => fail pendingTarget

/-- What a call comes to. -/
inductive Action where
  | refuse (f : Failure)
  /-- A number was out of range. -/
  | stop
  /-- Books an entry of a wallet and completes it. -/
  | instant (d : Draft) (word : String)
  /-- Books an entry and moves its money. -/
  | entrust (d : Draft)
  | settle (e : Entry) (status : Status) (reference notes : Option String)

def Action.program : Action → Program Entry
  | refuse f => fail f
  | stop => done .overflowed
  | instant d word => Wallet.instant d word
  | entrust d => book d >>= fun e => orAbandon e (d.move e)
  | settle e status reference notes => Payment.conclude e status reference notes

namespace Call

/-- Whether a call may come to an action. Amounts and texts are left open. -/
inductive Plans (t : Terms) (w : World) : Call → Action → Prop
  | refuse {c : Call} {f : Failure} (refusal : f.IsRefusal) : Plans t w c (.refuse f)
  | stop {c : Call} : Plans t w c .stop
  | charge {user : Nat} {amount : Decimal} {method : Method} {description : String} {a : Amount}
      {text : String} (usable : Wallet.canCharge method = true)
      (within : w.store.WithinDay t w.now user .charge a) :
      Plans t w (.charge user amount method description)
        (.entrust ⟨user, none, a, .charge, method, text⟩)
  | withdraw {user : Nat} {amount : Decimal} {account reason : String} {a : Amount}
      {text : String} :
      Plans t w (.withdraw user amount account reason)
        (.entrust ⟨user, none, a, .withdrawal, .bankTransfer, text⟩)
  | withdrawForPayment {user : Nat} {amount : Decimal} {reference : String} {a : Amount}
      {text : String} :
      Plans t w (.withdrawForPayment user amount reference)
        (.instant ⟨user, none, a, .withdrawal, .wallet, text⟩ "WALLET-DEBIT")
  | adminCredit {user : Nat} {amount : Decimal} {reason : String} {admin : Nat} {a : Amount}
      {text : String} :
      Plans t w (.adminCredit user amount reason admin)
        (.instant ⟨user, none, a, .charge, .adminCredit, text⟩ "ADMIN")
  | adminDebit {user : Nat} {amount : Decimal} {reason : String} {admin : Nat} {a : Amount}
      {text : String} :
      Plans t w (.adminDebit user amount reason admin)
        (.instant ⟨user, none, a, .withdrawal, .adminCredit, text⟩ "ADMIN")
  | pay {user order : Nat} {method : Method} {a : Amount} {text : String}
      (usable : Payment.canPay method = true)
      (covered : method = .wallet → w.store.Covers user a) :
      Plans t w (.pay user order method)
        (.entrust ⟨user, some order, a, .payment, method, text⟩)
  | refund {payment order : Nat} {reason text : String} {paid : Entry}
      (stored : w.store.get? payment = some paid) (kind : paid.kind = .payment)
      (forOrder : paid.order = some order) :
      Plans t w (.refund payment reason)
        (.entrust ⟨paid.user, some order, paid.amount, .refund, paid.method, text⟩)
  | settle {entry : Nat} {status : Status} {reference notes reference' notes' : Option String}
      {e : Entry} (stored : w.store.get? entry = some e) (pending : e.status = .pending)
      (final : status ≠ .pending)
      (within : status = .completed → w.store.WithinDay t w.now e.user e.kind e.amount) :
      Plans t w (.settle entry status reference notes) (.settle e status reference' notes')

/-- Whether a program comes to an action that a call may come to, and to the same one in all worlds
that look the same to the call. -/
def Comes (t : Terms) (w : World) (c : Call) (p : Program Entry) : Prop :=
  ∃ a : Action, Plans t w c a ∧ ∀ w', c.Sees w w' → Leads w' p a.program

section Comes

variable {t : Terms} {w : World} {c : Call} {α : Type}

/-- A check in front of a program that comes to an action. -/
theorem comes_bind {p : Program α} {f : α → Program Entry} (h : p.Vets)
    (hp : p.Only (c.Seeks w.store)) (hw : w.Calm)
    (hf : ∀ a, (p.run w).1 = .returned a → c.Comes t w (f a)) : c.Comes t w (p >>= f) := by
  have hl : ∀ w', c.Sees w w' → Leads w' (p >>= f) (done (p.run w).1 >>= f) := fun w' hs => by
    rw [← hs.run_eq hw hp]
    exact h.leads hs.calm f
  cases hrun : (p.run w).1 with
  | returned a =>
    rw [hrun] at hl
    obtain ⟨action, hplan, hrest⟩ := hf a hrun
    exact ⟨action, hplan, fun w' hs => (hl w' hs).trans (hrest w' hs)⟩
  | failed f =>
    rw [hrun] at hl
    exact ⟨.refuse f, .refuse ((h.run hw).2 f hrun), hl⟩
  | overflowed =>
    rw [hrun] at hl
    exact ⟨.stop, .stop, hl⟩

theorem comes_acquire {keys : List LockKey} {f : Unit → Program Entry} (h : c.Comes t w (f ())) :
    c.Comes t w (acquire keys >>= f) := by
  obtain ⟨action, hplan, hrest⟩ := h
  exact ⟨action, hplan, fun w' hs => (leads_acquire keys f).trans (hrest w' hs)⟩

theorem comes_action {a : Action} (h : Plans t w c a) : c.Comes t w a.program :=
  ⟨a, h, fun _ _ => .refl _⟩

/-! ### Checks in front -/

theorem comes_require {condition : Bool} {e : Failure} {f : Unit → Program Entry}
    (he : e.IsRefusal) (hw : w.Calm) (hf : condition = true → c.Comes t w (f ())) :
    c.Comes t w (require condition e >>= f) :=
  comes_bind (vets_require he) (.require _ _) hw fun _ h => hf (run_require_eq_returned.1 h)

theorem comes_requireId {id : Nat} {what : String} {f : Unit → Program Entry} (hw : w.Calm)
    (hf : c.Comes t w (f ())) : c.Comes t w (requireId id what >>= f) :=
  comes_require (Failure.isRefusal_invalidArgument _) hw fun _ => hf

theorem comes_ofDecimal {d : Decimal} {f : Amount → Program Entry} (hw : w.Calm)
    (hf : ∀ a, c.Comes t w (f a)) : c.Comes t w (ofAttempt (Amount.ofDecimal d) >>= f) :=
  comes_bind (vets_ofDecimal d) (.ofAttempt _) hw fun a _ => hf a

theorem comes_requireUser {user : Nat} {f : Unit → Program Entry} (hw : w.Calm)
    (hf : c.Comes t w (f ())) : c.Comes t w (Wallet.requireUser user >>= f) :=
  comes_bind (Wallet.vets_requireUser user) (Wallet.only_requireUser trivial) hw fun _ _ => hf

theorem comes_requireCovered {user : Nat} {a : Amount} {f : Unit → Program Entry} (hw : w.Calm)
    (hk : .user user ∈ c.keys w.store) (hf : w.store.Covers user a → c.Comes t w (f ())) :
    c.Comes t w (Wallet.requireCovered user a >>= f) :=
  comes_bind (Wallet.vets_requireCovered user a) (Wallet.only_requireCovered ⟨rfl, _, hk, rfl⟩ a) hw
    fun _ h => hf ((Wallet.run_requireCovered_eq_returned hw).1 h)

theorem comes_requireWithinDay {user : Nat} {kind : EntryKind} {a : Amount}
    {f : Unit → Program Entry} (hw : w.Calm) (hk : .user user ∈ c.keys w.store)
    (hf : w.store.WithinDay t w.now user kind a → c.Comes t w (f ())) :
    c.Comes t w (Wallet.requireWithinDay t user kind a >>= f) :=
  comes_bind (Wallet.vets_requireWithinDay t user kind a)
    (Wallet.only_requireWithinDay trivial (fun _ => ⟨rfl, _, hk, rfl⟩) t a) hw
    fun _ h => hf (.of_run hw h)

theorem comes_load {id : Nat} {f : Entry → Program Entry} (hw : w.Calm) (hc : c.named? = some id)
    (hf : ∀ e, w.store.get? id = some e → c.Comes t w (f e)) : c.Comes t w (load id >>= f) :=
  comes_bind (vets_load id) (only_load hc) hw fun e h => hf e ((run_load_eq_returned hw).1 h)

theorem comes_adjustment {user admin : Nat} {amount : Decimal} {reason : String}
    {f : Amount → Program Entry} (hw : w.Calm) (hf : ∀ a, c.Comes t w (f a)) :
    c.Comes t w (Wallet.adjustment user amount reason admin >>= f) :=
  comes_bind (Wallet.vets_adjustment _ _ _ _) (Wallet.only_adjustment _ _ _ _) hw fun a _ => hf a

/-! ### Calls -/

theorem comes_charge (hw : w.Calm) (user : Nat) (amount : Decimal) (method : Method)
    (description : String) : (charge user amount method description).Comes t w
      (Wallet.charge t user amount method description) := by
  refine comes_requireId hw (comes_ofDecimal hw fun a => ?_)
  refine comes_require (Failure.isRefusal_invalidArgument _) hw fun _ => ?_
  refine comes_require (Failure.isRefusal_invalidArgument _) hw fun husable => ?_
  refine comes_requireUser hw (comes_acquire ?_)
  refine comes_requireWithinDay hw List.mem_cons_self fun hday => ?_
  exact comes_action (.charge husable hday)

theorem comes_withdraw (hw : w.Calm) (user : Nat) (amount : Decimal) (account reason : String) :
    (withdraw user amount account reason).Comes t w
      (Wallet.withdraw t user amount account reason) := by
  refine comes_requireId hw (comes_ofDecimal hw fun a => ?_)
  refine comes_require (Failure.isRefusal_invalidArgument _) hw fun _ => ?_
  refine comes_require (Failure.isRefusal_invalidArgument _) hw fun _ => ?_
  refine comes_requireUser hw (comes_acquire ?_)
  refine comes_requireCovered hw List.mem_cons_self fun _ => ?_
  refine comes_requireWithinDay hw List.mem_cons_self fun _ => ?_
  -- The entry is booked and left as it is.
  rw [← Program.bind_pure (book _)]
  exact comes_action .withdraw

theorem comes_withdrawForPayment (hw : w.Calm) (user : Nat) (amount : Decimal)
    (reference : String) : (withdrawForPayment user amount reference).Comes t w
      (Wallet.withdrawForPayment user amount reference) := by
  refine comes_requireId hw (comes_ofDecimal hw fun a => comes_acquire ?_)
  refine comes_requireCovered hw List.mem_cons_self fun _ => ?_
  exact comes_action .withdrawForPayment

theorem comes_adminCredit (hw : w.Calm) (user : Nat) (amount : Decimal) (reason : String)
    (admin : Nat) : (adminCredit user amount reason admin).Comes t w
      (Wallet.adminCredit user amount reason admin) := by
  refine comes_adjustment hw fun a => comes_requireUser hw (comes_acquire ?_)
  exact comes_action .adminCredit

theorem comes_adminDebit (hw : w.Calm) (user : Nat) (amount : Decimal) (reason : String)
    (admin : Nat) : (adminDebit user amount reason admin).Comes t w
      (Wallet.adminDebit user amount reason admin) := by
  refine comes_adjustment hw fun a => comes_requireUser hw (comes_acquire ?_)
  refine comes_requireCovered hw List.mem_cons_self fun _ => ?_
  exact comes_action .adminDebit

theorem comes_pay (hw : w.Calm) (user order : Nat) (method : Method) :
    (pay user order method).Comes t w (Payment.pay t user order method) := by
  refine comes_requireId hw (comes_requireId hw ?_)
  refine comes_require (Failure.isRefusal_invalidArgument _) hw fun husable => ?_
  refine comes_requireUser hw ?_
  refine comes_bind (vets_request (r := .order order) trivial fun _ => rfl) (.request trivial) hw ?_
  intro found _
  refine comes_bind (vets_ofAttempt fun e he => ?_) (.ofAttempt _) hw ?_
  · cases found with
    | some o => cases he
    | none => cases he; exact Failure.isRefusal_notFound _
  intro o _
  refine comes_require (Failure.isRefusal_preconditionFailed _) hw fun _ => ?_
  refine comes_require (Failure.isRefusal_preconditionFailed _) hw fun _ => ?_
  refine comes_bind (Payment.vets_dueAmount o) (.ofAttempt _) hw ?_
  intro a _
  refine comes_acquire ?_
  refine comes_bind (Payment.vets_requireUnpaid order)
    (Payment.only_requireUnpaid ⟨rfl, _, List.mem_cons_self, rfl⟩) hw fun _ _ => ?_
  split
  · refine comes_requireCovered hw (List.mem_cons_of_mem _ List.mem_cons_self) fun hcovered => ?_
    exact comes_action (.pay husable fun _ => hcovered)
  · next hne => exact comes_action (.pay husable fun h => absurd h hne)

theorem comes_refund (hw : w.Calm) (payment : Nat) (reason : String) :
    (refund payment reason).Comes t w (Payment.refund payment reason) := by
  refine comes_requireId hw (comes_load hw rfl fun seen hseen => ?_)
  refine comes_bind (Payment.vets_orderOf payment seen) (.ofAttempt _) hw ?_
  intro order horder
  refine comes_acquire (comes_load hw rfl fun paid hpaid => ?_)
  -- The call runs alone, so nothing changes between its two loads.
  obtain rfl : seen = paid := Option.some.inj (hseen.symm.trans hpaid)
  obtain ⟨hkind, horder⟩ := Payment.orderOf_eq_ok.1 (run_ofAttempt_eq_returned.1 horder)
  have hkey : .order order ∈ (refund payment reason).keys w.store := by
    rw [keys, hseen]
    exact Entry.order_mem_keys horder
  refine comes_require (Failure.isRefusal_preconditionFailed _) hw fun _ => ?_
  refine comes_bind (Payment.vets_requireUnrefunded order)
    (Payment.only_requireUnrefunded ⟨rfl, _, hkey, rfl⟩) hw fun _ _ => ?_
  exact comes_action (.refund hseen hkind horder)

theorem comes_settle (hw : w.Calm) (entry : Nat) (status : Status)
    (reference notes : Option String) : (settle entry status reference notes).Comes t w
      (Payment.settle t entry status reference notes) := by
  refine comes_requireId hw ?_
  refine comes_require (Failure.isRefusal_invalidArgument _) hw fun hfinal => ?_
  refine comes_load hw rfl fun _ _ => comes_acquire (comes_load hw rfl fun e hstored => ?_)
  refine comes_bind (Payment.vets_requirePending e) (.ofAttempt _) hw ?_
  intro _ hpending
  have hfinal : status ≠ .pending := of_decide_eq_true hfinal
  have hpending := Entry.checkPending_eq_ok.1 (run_ofAttempt_eq_returned.1 hpending)
  cases status with
  | completed =>
    have hkeys : (settle entry .completed reference notes).keys w.store = e.keys := by
      rw [keys, hstored]
      rfl
    rw [Payment.settleTo_completed]
    refine comes_bind (Payment.vets_requireCompletable t e)
      (Payment.only_requireCompletable trivial
        (fun _ k hsel hk hp => ⟨hsel, k, hkeys ▸ hk, hp⟩) t) hw ?_
    intro _ hcompletable
    exact comes_action (.settle hstored hpending hfinal fun _ => .of_completable hw hcompletable)
  | failed =>
    exact comes_action (a := .settle e .failed none _) (.settle hstored hpending hfinal (by simp))
  | cancelled =>
    exact comes_action (a := .settle e .cancelled none _)
      (.settle hstored hpending hfinal (by simp))
  | pending => exact absurd rfl hfinal

/-- A call that runs alone comes, without having changed anything, to one of its actions, and to the
same one wherever everything that it looks at is the same. -/
theorem comes (t : Terms) (hw : w.Calm) (c : Call) : c.Comes t w (c.program t) := by
  cases c with
  | charge => exact comes_charge hw _ _ _ _
  | withdraw => exact comes_withdraw hw _ _ _ _
  | withdrawForPayment => exact comes_withdrawForPayment hw _ _ _
  | adminCredit => exact comes_adminCredit hw _ _ _ _
  | adminDebit => exact comes_adminDebit hw _ _ _ _
  | pay => exact comes_pay hw _ _ _
  | refund => exact comes_refund hw _ _
  | settle => exact comes_settle hw _ _ _ _

end Comes

end Call

end Paybook
