import Paybook.Proofs.Service.Acquiring
import Paybook.Proofs.Service.Wallet
import Paybook.Service.Call

/-! # Payments, refunds and settlements under locks

Paying, refunding and settling are `Safe` as well. An order that was found without a completed
entry of a kind stays so while its lock is held, also when the call itself books an entry for it or
moves money in the wallet; and a refund is booked for a payment that was completed before. -/

namespace Paybook.Payment

open Program

variable {held : List LockKey} {s : Store} {e : Entry} {order : Nat} {kind : EntryKind}
variable {post : Post Entry}

/-! ## Checks -/

theorem pins_doneFor (order : Nat) (kind : EntryKind) : (doneFor order kind).Pins (.order order) :=
  rfl

/-- What is found out about the completed entries of an order holds while its lock is held. -/
theorem checks_hasDone (order : Nat) (kind : EntryKind) : (hasDone order kind).Checks held
    (fun found s' => .order order ∈ held →
      found = !(s'.query (doneFor order kind)).isEmpty) s := by
  refine (checks_select _).bind ?_
  intro es s₁ _ hes
  refine checks_done ?_
  rintro _ s₂ ha ⟨⟩ hk
  rw [ha.query hk (pins_doneFor order kind), ← hes _ hk (pins_doneFor order kind)]

/-- An order that is found without a completed entry of a kind has none while its lock is held. -/
theorem checks_none (order : Nat) (kind : EntryKind) (f : Failure) :
    (hasDone order kind >>= fun found => require (!found) f).Checks held
      (fun _ s' => .order order ∈ held → s'.query (doneFor order kind) = []) s := by
  refine (checks_hasDone order kind).bind ?_
  intro found s₁ _ hfound
  refine (checks_require _ _).imp ?_
  intro _ s₂ ha hc hk
  rw [ha.query hk (pins_doneFor order kind)]
  simpa [hfound hk] using hc

theorem checks_requireUnpaid (order : Nat) : (requireUnpaid order).Checks held
    (fun _ s' => .order order ∈ held → s'.query (doneFor order .payment) = []) s :=
  checks_none order .payment _

theorem checks_requireUnrefunded (order : Nat) : (requireUnrefunded order).Checks held
    (fun _ s' => .order order ∈ held → s'.query (doneFor order .refund) = []) s :=
  checks_none order .refund _

/-! ## Moving the money -/

/-- Completing an entry by the entry of a wallet never comes to undoing the latter. -/
theorem secures_completeBy {leg : Entry} (hk : ∀ k ∈ e.keys, k ∈ held) (hp : e.status = .pending)
    (hf : s.Follows e) (ha : s.Admits e) (h : ∀ e' s', post held (.returned e') s') :
    (completeBy e leg).Secures held post s :=
  secures_onFailure <| secures_complete hk hp hf ha fun e' s' _ _ => h e' s'

/-- What happens to the wallet leaves the entry of the order as it may be completed. -/
theorem secures_completeBy_of_wallet {leg : Entry} {s' : Store} (hk : ∀ k ∈ e.keys, k ∈ held)
    (hp : e.status = .pending) (hf : s.Follows e) (hkind : e.kind ∈ EntryKind.ofOrder)
    (ho : e.order = some order) (hq : s.query (doneFor order e.kind) = [])
    (hw : s.Aside (besides held [.user e.user]) s') (h : ∀ e' s', post held (.returned e') s') :
    (completeBy e leg).Secures held post s' := by
  have hmem : .order order ∈ besides held [.user e.user] :=
    List.mem_filter.2 ⟨hk _ (Entry.order_mem_keys ho), by simp⟩
  refine secures_completeBy hk hp (hf.of_under (Entry.order_mem_keys ho) (hw.under _ hmem)) ?_ h
  exact Store.admits_of_order hkind ho ((hw.query hmem (pins_doneFor order e.kind)).trans hq)

theorem secures_collect {method : Method} (hk : ∀ k ∈ e.keys, k ∈ held) (hp : e.status = .pending)
    (hf : s.Follows e) (hkind : e.kind = .payment) (ho : e.order = some order)
    (hq : s.query (doneFor order .payment) = []) (hl : Post.Lenient post held s)
    (h : ∀ e' s', post held (.returned e') s') : (collect e method).Secures held post s := by
  have hkind' : e.kind ∈ EntryKind.ofOrder := by simp [hkind, EntryKind.ofOrder]
  rw [← hkind] at hq
  cases method with
  | wallet =>
    refine secures_bind (Wallet.secures_debit (hk _ e.user_mem_keys) hl.before fun leg s₁ ha₁ => ?_)
    exact secures_completeBy_of_wallet hk hp hf hkind' ho hq ha₁ h
  | card =>
    intro s₁ ha₁ verdict
    cases verdict with
    | approved =>
      have ha : s.Admits e := Store.admits_of_order hkind' ho hq
      have hdone : (completeFreshly e "CARD").Secures held post s :=
        secures_completeFreshly hk hp hf ha fun e' s' _ _ => h e' s'
      exact hdone.aside ha₁
    | declined => exact secures_fail (hl.grows ha₁.grows) _
  | cashOnDelivery => exact secures_amend hk hp hf (fun h => by cases h) fun e' s' _ _ => h e' s'
  | bankTransfer | adminCredit => exact secures_fail hl _

/-- A note leaves a pending entry as it may be completed. -/
theorem secures_note {text : String} {f : Entry → Program Entry} (hk : ∀ k ∈ e.keys, k ∈ held)
    (hp : e.status = .pending) (hf : s.Follows e) (ha : s.Admits e)
    (h : ∀ e' s', (∀ k ∈ e'.keys, k ∈ held) → e'.status = .pending → s'.Follows e' → s'.Admits e' →
      (f e').Secures held post s') : (change (.note text) e >>= f).Secures held post s := by
  refine secures_change hp ?_
  intro now s₁ ha₁
  exact h ((Change.note text).result e now) s₁ hk hp ((ha₁.follows hk hf).of_origin rfl rfl)
    ((ha₁.admits hk ha).of_origin rfl)

theorem secures_giveBack {method : Method} (hk : ∀ k ∈ e.keys, k ∈ held) (hp : e.status = .pending)
    (hf : s.Follows e) (hkind : e.kind = .refund) (ho : e.order = some order)
    (hq : s.query (doneFor order .refund) = []) (hl : Post.Lenient post held s)
    (h : ∀ e' s', post held (.returned e') s') : (giveBack e method).Secures held post s := by
  have hkind' : e.kind ∈ EntryKind.ofOrder := by simp [hkind, EntryKind.ofOrder]
  rw [← hkind] at hq
  have ha : s.Admits e := Store.admits_of_order hkind' ho hq
  cases method with
  | wallet =>
    refine secures_bind (Wallet.secures_creditRefund (hk _ e.user_mem_keys) hl.before
      fun leg s₁ ha₁ => ?_)
    exact secures_completeBy_of_wallet hk hp hf hkind' ho hq ha₁ h
  | card => exact secures_completeFreshly hk hp hf ha fun e' s' _ _ => h e' s'
  | cashOnDelivery =>
    refine secures_note hk hp hf ha ?_
    intro e' s' hk' hp' hf' ha'
    exact secures_completeFreshly hk' hp' hf' ha' fun e' s' _ _ => h e' s'
  | bankTransfer | adminCredit => exact secures_fail hl _

/-! ## Calls -/

/-- The end of a payment: an entry is booked for an order without a completed one, and the money is
moved. -/
theorem secures_bookPayment {user : Nat} {amount : Amount} {method : Method} {description : String}
    (hu : .user user ∈ held) (ho : .order order ∈ held)
    (hq : s.query (doneFor order .payment) = []) :
    (book ⟨user, some order, amount, .payment, method, description⟩ >>= fun payment =>
      orAbandon payment (collect payment method)).Secures held .any s := by
  refine secures_book_orAbandon (by simp [Draft.keys, hu, ho]) (fun h => by cases h) .any ?_
  intro e s₁ post' hb hke hl hpost
  have hq₁ := (hb.completed _ rfl ⟨_, ho, pins_doneFor order .payment⟩).trans hq
  obtain ⟨id, now, rfl⟩ := hb.made
  exact secures_collect hke hb.pending hb.follows rfl rfl hq₁ hl fun e' s' => hpost _ _ _ trivial

theorem safe_pay (t : Terms) (user order : Nat) (method : Method) :
    (pay t user order method).Safe := by
  refine .bind_of_looks (looks_requireId _ _) fun _ => ?_
  refine .bind_of_looks (looks_requireId _ _) fun _ => ?_
  refine .bind_of_looks (.require _ _) fun _ => ?_
  refine .bind_of_looks (Wallet.looks_requireUser user) fun _ => ?_
  refine .bind_of_looks (.request trivial) ?_
  intro found
  refine .bind_of_looks (.ofAttempt _) ?_
  intro found
  refine .bind_of_looks (.require _ _) fun _ => ?_
  refine .bind_of_looks (.require _ _) fun _ => ?_
  refine .bind_of_looks (.ofAttempt _) ?_
  intro amount
  refine .of_acquire ?_ fun held s hkeys => ?_
  · refine (looks_requireUnpaid order).lockFree.bind fun _ => ?_
    split
    · refine (Wallet.looks_requireCovered user amount).lockFree.bind fun _ => ?_
      exact lockFree_book_orAbandon _ fun e => lockFree_collect e method
    · exact lockFree_book_orAbandon _ fun e => lockFree_collect e method
  have ho : .order order ∈ held := hkeys _ (by simp)
  have hu : .user user ∈ held := hkeys _ (by simp)
  refine (checks_requireUnpaid order).secures_bind .any ?_
  intro _ s₁ _ hq
  split
  · refine (Wallet.checks_requireCovered user amount).secures_bind .any ?_
    intro _ s₂ ha₂ _
    refine secures_bookPayment hu ho ?_
    exact (ha₂.query ho (pins_doneFor order .payment)).trans (hq ho)
  · exact secures_bookPayment hu ho (hq ho)

/-- The end of a refund: an entry is booked for a completed payment of an order without a completed
refund, and the money is given back. -/
theorem secures_bookRefund {paid : Entry} {description : String} (hu : .user paid.user ∈ held)
    (ho : .order order ∈ held) (hpaid : paid ∈ s.entries) (hkind : paid.kind = .payment)
    (hcompleted : paid.status = .completed) (horder : paid.order = some order)
    (hq : s.query (doneFor order .refund) = []) :
    (book ⟨paid.user, some order, paid.amount, .refund, paid.method, description⟩ >>= fun entry =>
      orAbandon entry (giveBack entry paid.method)).Secures held .any s := by
  have hback : ∀ id now, s.Backs (.ofDraft id ⟨paid.user, some order, paid.amount, .refund,
      paid.method, description⟩ now) :=
    fun _ _ => ⟨paid, hpaid, hkind, hcompleted, horder, rfl, rfl, rfl⟩
  refine secures_book_orAbandon (by simp [Draft.keys, hu, ho]) (fun _ => hback) .any ?_
  intro e s₁ post' hb hke hl hpost
  have hq₁ := (hb.completed _ rfl ⟨_, ho, pins_doneFor order .refund⟩).trans hq
  obtain ⟨id, now, rfl⟩ := hb.made
  exact secures_giveBack hke hb.pending hb.follows rfl rfl hq₁ hl fun e' s' => hpost _ _ _ trivial

theorem secures_refund (payment : Nat) (reason : String) (held₀ : List LockKey) (s₀ : Store) :
    (refund payment reason).Secures held₀ .any s₀ := by
  refine (looks_requireId _ _).secures_bind .any ?_
  intro _ s _
  refine (checks_load payment).secures_bind .any ?_
  rintro seen s₁ _ ⟨e₁, he₁, ho₁, _⟩
  refine (checks_ofAttempt _).secures_bind .any ?_
  intro order s₂ ha₂ horder
  refine secures_acquire ?_
  intro held s₃ hg₃ hkeys
  refine (checks_load payment).secures_bind .any ?_
  rintro paid s₄ ha₄ ⟨e₄, he₄, ho₄, hfinal, _⟩
  refine (checks_require _ _).secures_bind .any ?_
  intro _ s₅ ha₅ hcompleted
  refine (checks_requireUnrefunded order).secures_bind .any fun _ s₆ ha₆ hq => ?_
  obtain ⟨hkind, hor⟩ := orderOf_eq_ok.1 horder
  -- The payment that is refunded is the one that was seen before the locks were taken.
  have hsame : paid.origin = seen.origin := by
    rw [← ho₄, ((ha₂.grows.trans hg₃).trans ha₄.grows).origin_eq he₁ he₄, ho₁]
  have hstatus : paid.status = .completed := of_decide_eq_true hcompleted
  have hmem : paid ∈ s₆.entries := by
    have hmem₄ := hfinal (Entry.isFinal_of_completed hstatus) ▸ (Store.get?_eq_some.1 he₄).1
    exact (ha₅.grows.trans ha₆.grows).final paid hmem₄ (Entry.isFinal_of_completed hstatus)
  have ho : .order order ∈ held := hkeys _ (by simp)
  have hu : .user paid.user ∈ held := hkeys _ (by simp [Entry.user_eq_of_origin hsame])
  exact secures_bookRefund hu ho hmem ((Entry.kind_eq_of_origin hsame).trans hkind) hstatus
    ((Entry.order_eq_of_origin hsame).trans hor) (hq ho)

theorem safe_refund (payment : Nat) (reason : String) : (refund payment reason).Safe :=
  ⟨secures_refund payment reason, (acquiresOnce_refund payment reason).locksFirst⟩

/-- An entry that is found completable may be completed while the locks of its keys are held. -/
theorem checks_requireCompletable (t : Terms) (e : Entry) : (requireCompletable t e).Checks held
    (fun _ s' => (∀ k ∈ e.keys, k ∈ held) → s'.Admits e) s := by
  unfold requireCompletable
  cases hkind : e.kind with
  | charge =>
    refine (Wallet.looks_requireWithinDay t e.user .charge e.amount).checks.imp fun _ _ _ _ _ => ?_
    exact Store.admits_of_charge hkind
  | withdrawal =>
    refine (Wallet.checks_requireCovered e.user e.amount).bind ?_
    intro _ s₁ _ hc
    refine (Wallet.looks_requireWithinDay t e.user .withdrawal e.amount).checks.imp ?_
    intro _ s₂ ha _ hk
    exact ha.admits hk (Store.admits_of_withdrawal hkind (hc (hk _ e.user_mem_keys)))
  | payment =>
    cases ho : e.order with
    | none => exact checks_done fun _ _ _ h => by cases h
    | some order =>
      refine (checks_requireUnpaid order).imp ?_
      intro _ s₁ _ hq hk
      refine Store.admits_of_order (by simp [hkind, EntryKind.ofOrder]) ho ?_
      rw [hkind]
      exact hq (hk _ (Entry.order_mem_keys ho))
  | refund =>
    cases ho : e.order with
    | none => exact checks_done fun _ _ _ h => by cases h
    | some order =>
      refine (looks_hasDone order .payment).checks.bind fun _ _ _ _ => ?_
      refine (checks_require _ _).bind fun _ _ _ _ => ?_
      refine (checks_requireUnrefunded order).imp fun _ s₁ _ hq hk => ?_
      refine Store.admits_of_order (by simp [hkind, EntryKind.ofOrder]) ho ?_
      rw [hkind]
      exact hq (hk _ (Entry.order_mem_keys ho))

theorem secures_finish {reference : Option String} (hk : ∀ k ∈ e.keys, k ∈ held)
    (hp : e.status = .pending) (hf : s.Follows e) (ha : s.Admits e) :
    (finish reference e).Secures held .any s := by
  cases reference with
  | some reference => exact secures_complete hk hp hf ha fun _ _ _ _ => trivial
  | none => exact secures_completeFreshly hk hp hf ha fun _ _ _ _ => trivial

theorem secures_settleTo (t : Terms) {status : Status} {reference notes : Option String}
    (hk : ∀ k ∈ e.keys, k ∈ held) (hp : e.status = .pending) (hf : s.Follows e) :
    (settleTo t e status reference notes).Secures held .any s := by
  cases status with
  | completed =>
    rw [settleTo_completed]
    refine (checks_requireCompletable t e).secures_bind .any ?_
    intro _ s₁ ha₁ hadmits
    have hf₁ := ha₁.follows hk hf
    cases notes with
    | some text => exact secures_note hk hp hf₁ (hadmits hk) fun _ _ => secures_finish
    | none => exact secures_finish hk hp hf₁ (hadmits hk)
  | failed | cancelled => exact secures_amend hk hp hf (fun h => by cases h) fun _ _ _ _ => trivial
  | pending => exact fun _ _ => trivial

theorem secures_settle (t : Terms) (entry : Nat) (status : Status) (reference notes : Option String)
    (held₀ : List LockKey) (s₀ : Store) :
    (settle t entry status reference notes).Secures held₀ .any s₀ := by
  refine (looks_requireId _ _).secures_bind .any fun _ _ _ => ?_
  refine (checks_require _ _).secures_bind .any ?_
  intro _ s _ _
  refine (checks_load entry).secures_bind .any ?_
  rintro seen s₁ _ ⟨e₁, he₁, ho₁, _⟩
  refine secures_acquire ?_
  intro held s₂ hg₂ hkeys
  refine (checks_load entry).secures_bind .any ?_
  rintro e s₃ ha₃ ⟨e₃, he₃, ho₃, _, hlocked⟩
  have hsame : e.origin = seen.origin := by
    rw [← ho₃, (hg₂.trans ha₃.grows).origin_eq he₁ he₃, ho₁]
  have hk : ∀ k ∈ e.keys, k ∈ held := by rw [Entry.keys_eq_of_origin hsame]; exact hkeys
  obtain rfl := hlocked (hk _ e.user_mem_keys)
  refine (checks_ofAttempt _).secures_bind .any ?_
  intro _ s₄ ha₄ hpending
  have hp : e₃.status = .pending := Entry.checkPending_eq_ok.1 hpending
  have hid : e₃.id = entry := (Store.get?_eq_some.1 he₃).2
  exact secures_settleTo t hk hp (ha₄.follows hk ⟨e₃, hid ▸ he₃, hp, rfl, rfl⟩)

theorem safe_settle (t : Terms) (entry : Nat) (status : Status) (reference notes : Option String) :
    (settle t entry status reference notes).Safe :=
  ⟨secures_settle t entry status reference notes,
    (acquiresOnce_settle t entry status reference notes).locksFirst⟩

end Paybook.Payment

namespace Paybook

/-- Every call of the book is safe. -/
theorem Call.safe (t : Terms) (c : Call) : (c.program t).Safe := by
  cases c with
  | charge => exact Wallet.safe_charge t _ _ _ _
  | withdraw => exact Wallet.safe_withdraw t _ _ _ _
  | withdrawForPayment => exact Wallet.safe_withdrawForPayment _ _ _
  | adminCredit => exact Wallet.safe_adminCredit _ _ _ _
  | adminDebit => exact Wallet.safe_adminDebit _ _ _ _
  | pay => exact Payment.safe_pay t _ _ _
  | refund => exact Payment.safe_refund _ _
  | settle => exact Payment.safe_settle t _ _ _ _

end Paybook
