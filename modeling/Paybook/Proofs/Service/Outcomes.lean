import Paybook.Proofs.Service.Reachable
import Paybook.Service.History

/-! # How calls end

On a ledger a call either returns, or refuses and leaves the world as it was, or was declined by a
card gateway and leaves one failed entry behind. A gateway is asked once by each call that books an
entry whose money a card moves, after it has been booked, and never else. -/

namespace Paybook

open Program Time

/-! ## Calls that read -/

/-- A call that reads, and what it returns. -/
inductive Inquiry : Type → Type
  | balance (user : Nat) : Inquiry Balance
  | hasBalance (user : Nat) (amount : Decimal) : Inquiry Bool
  | entry (id : Nat) : Inquiry Entry
  | byReference (reference : String) : Inquiry (Option Entry)
  | hasEntry (id : Nat) : Inquiry Bool
  | ofUser (user : Nat) : Inquiry (List Entry)
  | ofOrder (order : Nat) : Inquiry (List Entry)
  | withStatus (status : Status) : Inquiry (List Entry)
  | ofKind (kind : EntryKind) : Inquiry (List Entry)
  | ofUserWithStatus (user : Nat) (status : Status) : Inquiry (List Entry)
  | ofUserOfKind (user : Nat) (kind : EntryKind) : Inquiry (List Entry)
  | between (start stop : Instant) : Inquiry (List Entry)
  | ofUserBetween (user : Nat) (start stop : Instant) : Inquiry (List Entry)
  | ofWallet (user : Nat) : Inquiry (List Entry)
  | ofOrders (user : Nat) : Inquiry (List Entry)
  | orderSummary (user : Nat) : Inquiry OrderSummary
  | walletSummary (user : Nat) : Inquiry WalletSummary

/-- A listing is what is selected, newest first. -/
theorem History.run_fetch {w : World} (hw : w.Calm) (sel : Selection) : (History.fetch sel).run w =
    (.returned (History.newestFirst (w.store.query sel)), w) :=
  run_bind_of_run (run_select hw sel)

theorem History.run_ofUser {w : World} (hw : w.Calm) {user : Nat} (huser : user ≠ 0) :
    (History.ofUser user).run w =
      (.returned (History.newestFirst (w.store.query { user := some user })), w) :=
  (run_bind_of_run (run_requireId huser "User")).trans (run_fetch hw _)

namespace Inquiry

def program : {α : Type} → Inquiry α → Program α
  | _, balance user => Wallet.balance user
  | _, hasBalance user amount => Wallet.hasBalance user amount
  | _, entry id => History.entry id
  | _, byReference reference => History.byReference reference
  | _, hasEntry id => History.hasEntry id
  | _, ofUser user => History.ofUser user
  | _, ofOrder order => History.ofOrder order
  | _, withStatus status => History.withStatus status
  | _, ofKind kind => History.ofKind kind
  | _, ofUserWithStatus user status => History.ofUserWithStatus user status
  | _, ofUserOfKind user kind => History.ofUserOfKind user kind
  | _, between start stop => History.between start stop
  | _, ofUserBetween user start stop => History.ofUserBetween user start stop
  | _, ofWallet user => History.ofWallet user
  | _, ofOrders user => History.ofOrders user
  | _, orderSummary user => History.orderSummary user
  | _, walletSummary user => History.walletSummary user

theorem vets_balance (user : Nat) : (Wallet.balance user).Vets :=
  (vets_requireId _ _).bind fun _ => Wallet.vets_holds user

theorem vets_fetch (sel : Selection) : (History.fetch sel).Vets :=
  (vets_select sel).bind fun _ => vets_pure _

theorem vets_requireRange (start stop : Instant) : (History.requireRange start stop).Vets :=
  vets_require (Failure.isRefusal_invalidArgument _)

/-- A call that reads is a check. -/
theorem vets {α : Type} (q : Inquiry α) : q.program.Vets := by
  cases q with
  | balance user => exact vets_balance user
  | hasBalance user amount =>
    exact (vets_ofDecimal amount).bind fun _ => (vets_balance user).bind fun _ => vets_pure _
  | entry id => exact (vets_requireId _ _).bind fun _ => vets_load id
  | byReference reference =>
    change (History.byReference reference).Vets
    unfold History.byReference
    split
    · rintro _ ⟨⟩
      exact Failure.isRefusal_invalidArgument _
    · exact vets_request trivial fun _ => rfl
  | hasEntry id => exact vets_request (r := .contains id) trivial fun _ => rfl
  | withStatus | ofKind => exact vets_fetch _
  | ofUser | ofOrder | ofUserWithStatus | ofUserOfKind | ofWallet | ofOrders =>
    exact (vets_requireId _ _).bind fun _ => vets_fetch _
  | between start stop => exact (vets_requireRange _ _).bind fun _ => vets_fetch _
  | ofUserBetween user start stop =>
    exact (vets_requireId _ _).bind fun _ => (vets_requireRange _ _).bind fun _ => vets_fetch _
  | orderSummary user =>
    exact ((vets_requireId _ _).bind fun _ => vets_fetch _).bind fun _ => vets_inRange _
  | walletSummary user =>
    exact ((vets_requireId _ _).bind fun _ => vets_fetch _).bind fun _ => vets_inRange _

end Inquiry

/-! ## Gateways -/

namespace World

variable {w w' w'' : World} {desk : Option CardDesk}

/-- How often a gateway has been asked. -/
def asked (w : World) : CardDesk → Nat
  | .charges => w.charges.used
  | .payments => w.payments.used

theorem Kept.asked (h : w.Kept desk w') (d : CardDesk) :
    w'.asked d = w.asked d + if desk = some d then 1 else 0 := by
  have hc := congrArg CardGateway.used h.charges
  have hp := congrArg CardGateway.used h.payments
  rcases desk with _ | _ | _ <;> cases d <;> first | exact hc | exact hp

/-- A world before another one: identifiers are given and gateways asked from there on. -/
structure Precedes (w w' : World) : Prop where
  lastId : w.store.lastId ≤ w'.store.lastId
  asked : ∀ desk, w.asked desk ≤ w'.asked desk

theorem Precedes.refl (w : World) : w.Precedes w := ⟨le_refl _, fun _ => le_refl _⟩

theorem Precedes.trans (h : w.Precedes w') (h' : w'.Precedes w'') : w.Precedes w'' :=
  ⟨h.lastId.trans h'.lastId, fun desk => (h.asked desk).trans (h'.asked desk)⟩

theorem Calm.precedes_answer (hw : w.Calm) (r : Request) : w.Precedes (w.answer r).2 := by
  cases r with
  | get id => rw [hw.answer_get]; exact .refl w
  | query sel => rw [hw.answer_query]; exact .refl w
  | insert d =>
    rw [hw.answer_insert]
    exact ⟨Nat.le_succ _, fun desk => le_refl _⟩
  | update e =>
    obtain ⟨⟨s, troubles⟩, _⟩ := w
    cases hw
    simp only [World.answer, TroubledStore.update, TroubledStore.before_nil]
    cases hu : s.update e with
    | error f => exact ⟨le_refl _, fun _ => le_refl _⟩
    | ok stored =>
      obtain ⟨-, -, hs⟩ := Store.update_eq_ok.1 hu
      exact ⟨le_of_eq (congrArg Store.lastId hs).symm, fun _ => le_refl _⟩
  | verdict desk =>
    refine ⟨?_, fun d => ?_⟩
    · cases desk <;> exact le_refl _
    · cases desk <;> cases d <;> first | exact le_refl _ | exact Nat.le_succ _
  | lock | user | order | findReference | contains | clock | token =>
    exact ⟨le_refl _, fun _ => le_refl _⟩

end World

namespace Program

variable {α β : Type} {p q : Program α} {w v : World}

theorem start_mem_worlds (p : Program α) (w : World) : w ∈ p.worlds w := by
  cases p with
  | done o => exact List.mem_singleton_self w
  | ask r next => exact List.mem_cons_self

/-- The worlds on the way of a program come after its start and before its end. -/
theorem precedes_of_mem_worlds (hw : w.Calm) (hv : v ∈ p.worlds w) :
    w.Precedes v ∧ v.Precedes (p.run w).2 := by
  induction p generalizing w v with
  | done o =>
    rw [List.mem_singleton.1 hv]
    exact ⟨.refl w, .refl w⟩
  | ask r next ih =>
    have hstep := hw.precedes_answer r
    rcases List.mem_cons.1 hv with rfl | hv
    · refine ⟨.refl v, hstep.trans ?_⟩
      exact (ih _ (hw.answer r) (start_mem_worlds _ _)).2
    · obtain ⟨hfrom, hto⟩ := ih _ (hw.answer r) hv
      exact ⟨hstep.trans hfrom, hto⟩

/-- Nothing has changed on the way to what a program leads to. -/
theorem Leads.mem_worlds (h : Leads w p q) (hv : v ∈ p.worlds w) : v = w ∨ v ∈ q.worlds w := by
  induction h with
  | refl p => exact .inr hv
  | ask still _ _ ih =>
    rcases List.mem_cons.1 hv with rfl | hv
    · exact .inl rfl
    · rw [still] at hv
      exact ih hv

/-- An identifier has been given in every world behind the booking of an entry. -/
theorem lastId_lt_of_mem_worlds {d : Draft} {f : Entry → Program α} (hw : w.Calm)
    (hv : v ∈ (book d >>= f).worlds w) : v = w ∨ w.store.lastId < v.store.lastId := by
  rcases List.mem_cons.1 hv with rfl | hv
  · exact .inl rfl
  · have hlast : (w.answer (.insert d)).2.store.lastId = w.store.lastId + 1 := by
      rw [hw.answer_insert]
      rfl
    have := (precedes_of_mem_worlds (hw.answer _) hv).1.lastId
    rw [hlast] at this
    exact .inr this

end Program

/-! ## Calls that write -/

namespace Call

variable {t : Terms} {w w' : World} {c : Call} {a : Action}

/-- The gateway that a call asks. -/
def desk? : Call → Option CardDesk
  | charge _ _ .card _ => some .charges
  | pay _ _ .card => some .payments
  | _ => none

/-- How a call may end in a world, and in which world then. -/
inductive Ends (c : Call) (w : World) : Outcome Entry → World → Prop
  | returned (e : Entry) (w' : World) : Ends c w (.returned e) w'
  | refused {f : Failure} (refusal : f.IsRefusal) : Ends c w (.failed f) w
  | stopped : Ends c w .overflowed w
  | declined {desk : CardDesk} {f : Failure} {e : Entry} {w' : World} (asked : c.desk? = some desk)
      (verdict : w.verdict desk = .declined) (kind : f.kind = .processingFailure)
      (store : w.store.Extends [e] w'.store) (failed : e.status = .failed)
      (reference : e.reference = none) : Ends c w (.failed f) w'

theorem Plans.desk?_eq {d : Draft} (h : Plans t w c (.entrust d)) : c.desk? = d.desk? := by
  cases h with
  | withdraw | refund => rfl
  | @charge _ _ method | @pay _ _ method => cases method <;> rfl

theorem Plans.ends {o : Outcome Entry} (h : Plans t w c a) (he : a.Effect w o w') :
    c.Ends w o w' := by
  cases he with
  | refused =>
    cases h with
    | refuse refusal => exact .refused refusal
  | stopped => exact .stopped
  | declined declined gains made =>
    exact .declined (h.desk?_eq.trans declined.asked) declined.verdict declined.kind
      gains.store made.status_eq made.reference_eq
  | instant | entrusted | settled => exact .returned _ _

/-- A gateway is asked once more after a call that asks it and books an entry, and no more after any
other one. -/
theorem Plans.asked {o : Outcome Entry} (h : Plans t w c a) (he : a.Effect w o w')
    (desk : CardDesk) : w'.asked desk = w.asked desk +
      if c.desk? = some desk ∧ w.store.lastId < w'.store.lastId then 1 else 0 := by
  cases he with
  | refused | stopped => simp
  | instant gains _ =>
    rw [gains.asked]
    cases h <;> simp [desk?]
  | entrusted done =>
    cases done with
    | alone _ _ gains _ =>
      rw [gains.asked, h.desk?_eq, gains.store.lastId]
      simp
    | paired method _ gains _ _ =>
      rw [gains.asked, h.desk?_eq, Draft.desk?_of_wallet method]
      simp
  | declined declined gains _ =>
    rw [gains.asked, h.desk?_eq, declined.asked, gains.store.lastId]
    simp
  | settled kept _ _ _ _ =>
    rw [kept.asked]
    cases h
    simp [desk?]

/-- While no entry has been booked, no gateway has been asked. -/
theorem lastId_lt_of_asked (t : Terms) (hw : w.Calm) (hpay : w.store.Payable) (c : Call) {v : World}
    (hv : v ∈ (c.program t).worlds w) {desk : CardDesk} (hasked : v.asked desk ≠ w.asked desk) :
    w.store.lastId < v.store.lastId := by
  obtain ⟨a, hplan, hleads⟩ := c.comes t hw
  have hleads := hleads w (.refl c hw)
  rcases hleads.mem_worlds hv with rfl | hmem
  · exact absurd rfl hasked
  have hbook : v = w ∨ w.store.lastId < v.store.lastId → w.store.lastId < v.store.lastId :=
    fun h => h.resolve_left fun h => hasked (h ▸ rfl)
  cases a with
  | refuse f | stop => exact absurd (List.mem_singleton.1 hmem ▸ rfl) hasked
  | instant | entrust => exact hbook (lastId_lt_of_mem_worlds hw hmem)
  | settle e status reference notes =>
    -- A settlement asks no gateway at all.
    have heffect := (Action.risks hw (hplan.sound hpay)).yields
    obtain ⟨hfrom, hto⟩ := precedes_of_mem_worlds hw hmem
    have hend := hplan.asked heffect desk
    have hnone : c.desk? ≠ some desk := by
      cases hplan
      simp [desk?]
    rw [if_neg fun h => hnone h.1, add_zero] at hend
    exact absurd (le_antisymm (hend ▸ hto.asked desk) (hfrom.asked desk)) hasked

end Call

/-! ## Ledgers -/

namespace World

/-- Whatever is asked of a ledger, a call that writes returns, or refuses and leaves the world as it
was, or was declined by a gateway and leaves one failed entry behind. A gateway is asked exactly
once by each call that a card pays for and that books its entry, and only once the entry is there. A
call that reads leaves the world as it was, and fails only by refusing. -/
theorem ends_without_trace (t : Terms) (w : World) (es : List Event) :
    let v := (w.withStore .empty).after t es
    (∀ c : Call, c.Ends v (c.run t v).1 (c.run t v).2 ∧
      (∀ desk, (c.run t v).2.asked desk = v.asked desk +
        if c.desk? = some desk ∧ v.store.lastId < (c.run t v).2.store.lastId then 1 else 0) ∧
      ∀ u ∈ (c.program t).worlds v, ∀ desk, u.asked desk ≠ v.asked desk →
        v.store.lastId < u.store.lastId) ∧
    ∀ (α : Type) (q : Inquiry α), (q.program.run v).2 = v ∧
      ∀ f, (q.program.run v).1 = .failed f → f.IsRefusal := by
  intro v
  have hcalm := (written_after (t := t) (w.calm_withStore .empty) es).1
  have hpay := payable_after t w es
  refine ⟨fun c => ?_, fun α q => q.vets.run hcalm⟩
  obtain ⟨a, hplan, heffect⟩ := c.effect t hcalm hpay
  exact ⟨hplan.ends heffect, hplan.asked heffect,
    fun u hu desk => c.lastId_lt_of_asked t hcalm hpay hu⟩

end World

end Paybook
