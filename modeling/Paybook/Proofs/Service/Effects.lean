import Paybook.Proofs.Service.Actions
import Paybook.Proofs.Service.Gains

/-! # What calls do to the ledger

An action that runs alone either does what it is for or finds a card declined; `Action.Effect` says
what is then in the world. When the store fails at one of its calls, what the action has booked is
worth nothing: `Action.Leaves`. `Action.risks` proves both at once, and `Call.risks` carries them
over to calls. -/

namespace Paybook

open Program Time

/-! ## Entries that are worth nothing -/

/-- Whether one entry of a wallet reverses another one because of a failure. -/
structure Entry.Reverses (rev leg : Entry) (f : Failure) : Prop where
  user : rev.user = leg.user
  amount : rev.amount = leg.amount
  kind : Wallet.opposite? leg.kind = some rev.kind
  method : rev.method = .wallet
  description : rev.description = s!"REVERSAL of #{leg.id}: {f.detail}"

/-- Entries of a wallet that move nothing together: none, one that failed, or one with the one that
reverses it. -/
inductive Undone : List Entry → Prop
  | nothing : Undone []
  | failed {leg : Entry} (status : leg.status = .failed) : Undone [leg]
  | reversed {leg rev : Entry} {f : Failure} (completed : leg.status = .completed)
      (reversal : rev.status = .completed) (method : leg.method = .wallet)
      (reverses : rev.Reverses leg f) : Undone [leg, rev]

/-- What a draft leaves behind when it comes to nothing: no entry, or one that failed and, if it is
for an order, entries of the wallet that move nothing. -/
inductive Residue (d : Draft) (now : Instant) : List Entry → Prop
  | nothing : Residue d now []
  | failed {e : Entry} {es : List Entry} (made : e.Made d now .failed none)
      (rest : es ≠ [] → d.kind ∈ EntryKind.ofOrder) (undone : Undone es) : Residue d now (e :: es)

/-! ## Instant entries -/

section Instant

variable {w w₁ : World} {desk : Option CardDesk} {es : List Entry} {d : Draft} {word : String}
variable {Q R : Outcome Entry → World → Prop}

/-- An entry that is booked and completed at once, or failed when the store fails. -/
theorem Wallet.risks_instant (h : w.Gains desk es w₁)
    (hQ : ∀ e id reference w₂, e = Store.bumped ((Change.complete reference).result
      (.ofDraft id d w.now) w.now) → w.Gains desk (es ++ [e]) w₂ → Q (.returned e) w₂)
    (hR : ∀ f w₂, w.Gains desk es w₂ → R (.failed f) w₂)
    (hR' : ∀ f e w₂, e.Made d w.now .failed none → w.Gains desk (es ++ [e]) w₂ →
      R (.failed f) w₂) : (instant d word).Risks w₁ Q R := by
  refine risks_bind (risks_book h ?_ fun f => hR f _ h)
  intro id w₂ h₂
  refine risks_onFailure (risks_completeFreshly h₂ (h₂.follows rfl) rfl rfl ?_ ?_)
  · intro reference w₃ h₃
    exact hQ _ id reference w₃ rfl h₃
  · intro f w₃ h₃
    refine yields_abandon_gains h₃ rfl fun w₄ h₄ => ?_
    exact hR' f _ w₄ ((Entry.Made.ofDraft id d w.now).bumped_result (.fail f.detail)) h₄

/-- A reversal never fails to be booked. -/
theorem Wallet.yields_reverse {leg : Entry} {kind : EntryKind} {f : Failure}
    (h : w.Gains desk es w₁) (hkind : opposite? leg.kind = some kind)
    (hQ : ∀ rev w₂, rev.status = .completed → rev.Reverses leg f →
      w.Gains desk (es ++ [rev]) w₂ → Q (.failed f) w₂) : (reverse leg f).Yields w₁ Q := by
  unfold reverse
  rw [hkind]
  refine yields_bind (yields_onFailure ?_)
  refine (risks_instant (R := fun _ _ => True) h ?_ (fun _ _ _ => trivial)
    fun _ _ _ _ _ => trivial).yields
  rintro _ id reference w₂ rfl h₂
  refine hQ _ w₂ rfl ?_ h₂
  exact ⟨rfl, rfl, hkind, rfl, rfl⟩

end Instant

/-! ## Entries whose money is moved -/

/-- The kind of the entry of a wallet that moves the money of an entry. -/
def EntryKind.leg? : EntryKind → Option EntryKind
  | .payment => some .withdrawal
  | .refund => some .charge
  | .charge | .withdrawal => none

theorem EntryKind.mem_ofOrder_of_leg? {k k' : EntryKind} (h : k.leg? = some k') :
    k ∈ EntryKind.ofOrder := by
  cases k <;> cases h <;> simp [ofOrder]

theorem EntryKind.mem_ofWallet_of_leg? {k k' : EntryKind} (h : k.leg? = some k') :
    k' ∈ EntryKind.ofWallet := by
  cases k <;> cases h <;> simp [ofWallet]

theorem Wallet.exists_opposite? {k : EntryKind} (h : k ∈ EntryKind.ofWallet) :
    ∃ k', opposite? k = some k' := by
  cases k with
  | charge | withdrawal => exact ⟨_, rfl⟩
  | payment | refund => simp [EntryKind.ofWallet] at h

namespace Draft

/-- The gateway that is asked to move the money. -/
def desk? (d : Draft) : Option CardDesk :=
  match d.kind, d.method with
  | .charge, .card => some .charges
  | .payment, .card => some .payments
  | _, _ => none

theorem desk?_of_wallet {d : Draft} (h : d.method = .wallet) : d.desk? = none := by
  unfold desk?
  rw [h]
  cases d.kind <;> rfl

/-- The status in which the entry is left. -/
def status (d : Draft) : Status :=
  match d.kind, d.method with
  | .withdrawal, _ | .charge, .bankTransfer | .payment, .cashOnDelivery => .pending
  | _, _ => .completed

/-- Whether the money can be moved by the method. -/
def Sound (d : Draft) (s : Store) : Prop :=
  match d.kind with
  | .charge => Wallet.canCharge d.method = true
  | .withdrawal => d.method = .bankTransfer
  | .payment => Payment.canPay d.method = true ∧ (d.method = .wallet → s.Covers d.user d.amount)
  | .refund => Payment.canPay d.method = true

end Draft

/-- What is in the world when the money of a booked entry has been moved: the entry as it is left,
with that of the wallet if it moved the money. -/
inductive Draft.Done (d : Draft) (w : World) : Entry → World → Prop
  | alone {e : Entry} {reference : Option String} {w' : World} (method : d.method ≠ .wallet)
      (approved : ∀ desk, d.desk? = some desk → w.verdict desk = .approved)
      (gains : w.Gains d.desk? [e] w') (made : e.Made d w.now d.status reference) : Done d w e w'
  | paired {e leg : Entry} {kind : EntryKind} {text reference : String} {w' : World}
      (method : d.method = .wallet) (legKind : d.kind.leg? = some kind)
      (gains : w.Gains none [e, leg] w')
      (made : e.Made d w.now .completed (some s!"WALLET-{leg.id}"))
      (legMade : leg.Made ⟨d.user, none, d.amount, kind, .wallet, text⟩ w.now .completed
        (some reference)) : Done d w e w'

namespace Draft.Done

variable {d : Draft} {w w' : World} {e : Entry}

/-- The entry is stored. -/
theorem get? (h : d.Done w e w') : w'.store.get? e.id = some e := by
  cases h with
  | alone _ _ gains => exact gains.store.get? List.mem_cons_self
  | paired _ _ gains => exact gains.store.get? List.mem_cons_self

theorem made (h : d.Done w e w') : ∃ reference, e.Made d w.now d.status reference := by
  cases h with
  | alone _ _ _ made => exact ⟨_, made⟩
  | paired method legKind _ made =>
    have hstatus : d.status = .completed := by
      unfold status
      rw [method]
      revert legKind
      cases d.kind <;> simp [EntryKind.leg?]
    exact ⟨_, hstatus ▸ made⟩

end Draft.Done

/-- Whether a gateway declines to move the money, and fails the call. -/
structure Draft.Declined (d : Draft) (w : World) (desk : CardDesk) (f : Failure) : Prop where
  asked : d.desk? = some desk
  verdict : w.verdict desk = .declined
  kind : f.kind = .processingFailure

namespace Draft

/-- The end of moving the money of a booked entry. -/
def Ends (d : Draft) (w : World) (x : Entry) : Outcome Entry → World → Prop
  | .returned e, w' => d.Done w e w'
  | .failed f, w' => ∃ desk, d.Declined w desk f ∧ w.Gains (some desk) [x] w'
  | .overflowed, _ => False

/-- The end of moving the money of a booked entry when the store fails at it. -/
def Breaks (d : Draft) (w : World) (x : Entry) : Outcome Entry → World → Prop
  | .failed _, w' => ∃ desk es, w.Gains desk (x :: es) w' ∧
      (es ≠ [] → d.kind ∈ EntryKind.ofOrder) ∧ Undone es
  | .returned _, _ | .overflowed, _ => False

section Move

variable {w w₁ : World} {d : Draft} {x : Entry} {desk : Option CardDesk}

theorem Breaks.alone {f : Failure} (h : w.Gains desk [x] w₁) : d.Breaks w x (.failed f) w₁ :=
  ⟨desk, [], h, fun hne => absurd rfl hne, .nothing⟩

/-- A booked entry that is completed under a reference of its own, perhaps with a note. -/
theorem risks_completeFreshly {e : Entry} {word : String} (h : w.Gains d.desk? [x] w₁)
    (hf : w₁.store.Follows e) (hid : e.id = x.id) (he : e.Made d w.now .pending none)
    (hmethod : d.method ≠ .wallet) (hstatus : d.status = .completed)
    (happroved : ∀ desk, d.desk? = some desk → w.verdict desk = .approved) :
    (completeFreshly e word).Risks w₁ (d.Ends w x) (d.Breaks w x) := by
  refine Program.risks_completeFreshly (l := []) (r := []) h hf hid he.status_eq ?_ ?_
  · intro reference w₂ h₂
    refine .alone hmethod happroved h₂ (?_ : Entry.Made _ d w.now d.status (some reference))
    rw [hstatus]
    exact he.bumped_result (.complete reference)
  · intro f w₂ h₂
    exact .alone h₂

/-- A booked entry that is left pending with a note. -/
theorem risks_note {text : String} (h : w.Gains none [x] w₁) (hx : x.Made d w.now .pending none)
    (hmethod : d.method ≠ .wallet) (hdesk : d.desk? = none) (hstatus : d.status = .pending) :
    (change (.note text) x >>= update).Risks w₁ (d.Ends w x) (d.Breaks w x) := by
  have hp := hx.status_eq
  refine risks_amend (l := []) (r := []) h (World.Gains.follows (l := []) h hp) rfl hp ?_
    fun f => .alone h
  intro w₂ h₂
  rw [← hdesk] at h₂
  refine .alone hmethod (fun desk hd => ?_) h₂ (?_ : Entry.Made _ d w.now d.status none)
  · rw [hdesk] at hd
    cases hd
  · rw [hstatus]
    exact hx.bumped_result (.note text)

/-- A booked entry is completed by the entry of the wallet that moves its money. If it cannot be
completed, that entry is reversed. -/
theorem risks_instant_completeBy {kind : EntryKind} {text word : String}
    (h : w.Gains none [x] w₁) (hx : x.Made d w.now .pending none) (hmethod : d.method = .wallet)
    (hkind : d.kind.leg? = some kind) :
    (Wallet.instant ⟨d.user, none, d.amount, kind, .wallet, text⟩ word >>=
      Payment.completeBy x).Risks w₁ (d.Ends w x) (d.Breaks w x) := by
  refine risks_bind (Wallet.risks_instant h ?_ ?_ ?_)
  · rintro leg id reference w₂ hleg h₂
    have hmade : leg.Made ⟨d.user, none, d.amount, kind, .wallet, text⟩ w.now .completed
        (some reference) :=
      hleg ▸ (Entry.Made.ofDraft id _ w.now).bumped_result (.complete reference)
    have hp := hx.status_eq
    refine risks_onFailure (risks_complete (l := []) h₂ (World.Gains.follows (l := []) h₂ hp) rfl
      hp ?_ ?_)
    · intro w₃ h₃
      exact .paired hmethod hkind h₃ (hx.bumped_result (.complete _)) hmade
    · intro f
      have hwallet : leg.kind ∈ EntryKind.ofWallet :=
        hmade.kind_eq ▸ EntryKind.mem_ofWallet_of_leg? hkind
      obtain ⟨k, hk⟩ := Wallet.exists_opposite? hwallet
      refine Wallet.yields_reverse h₂ hk ?_
      intro rev w₃ hrev hreverses h₃
      exact ⟨none, [leg, rev], h₃, fun _ => EntryKind.mem_ofOrder_of_leg? hkind,
        .reversed hmade.status_eq hrev hmade.method_eq hreverses⟩
  · intro f w₂ h₂
    exact .alone h₂
  · intro f leg w₂ hleg h₂
    exact ⟨none, [leg], h₂, fun _ => EntryKind.mem_ofOrder_of_leg? hkind, .failed hleg.status_eq⟩

/-- A booked entry whose money a gateway moves or declines to. -/
theorem risks_card {desk : CardDesk} {f : Verdict → Program Entry} {word text : String}
    (h : w.Gains none [x] w₁) (hx : x.Made d w.now .pending none) (hmethod : d.method ≠ .wallet)
    (hdesk : d.desk? = some desk) (hstatus : d.status = .completed)
    (happroved : f .approved = completeFreshly x word)
    (hdeclined : f .declined = fail (.processingFailure text)) :
    (request (.verdict desk) >>= f).Risks w₁ (d.Ends w x) (d.Breaks w x) := by
  refine risks_request (r := .verdict desk) (fun _ => rfl) ?_
  have h₂ := h.verdict desk
  change (f (w₁.verdict desk)).Risks _ _ _
  rw [h.verdict_eq]
  cases hv : w.verdict desk with
  | approved =>
    have hf := World.Gains.follows (l := []) h₂ hx.status_eq
    rw [← hdesk] at h₂
    rw [happroved]
    refine risks_completeFreshly h₂ hf rfl hx hmethod hstatus fun desk' hd => ?_
    rw [hdesk] at hd
    cases hd
    exact hv
  | declined =>
    rw [hdeclined]
    exact ⟨desk, ⟨hdesk, hv, rfl⟩, h₂⟩

/-- What covers an amount still does when an entry has been booked. -/
theorem covers_of_gains (h : w.Gains none [x] w₁) (hx : x.status = .pending) {user : Nat}
    {a : Amount} (hc : w.store.Covers user a) : w₁.store.Covers user a := by
  have hnot : (Wallet.holdings user).selects x = false :=
    (Wallet.holdings user).not_selects_of_status rfl (by simp [hx])
  rw [Store.Covers, h.store.query, List.filter_singleton, hnot, cond_false, List.append_nil]
  exact hc

/-- The money of a booked entry is moved, or declined by a gateway. -/
theorem risks_move {id : Nat} (hs : d.Sound w.store)
    (h : w.Gains none [.ofDraft id d w.now] w₁) :
    (d.move (.ofDraft id d w.now)).Risks w₁ (d.Ends w (.ofDraft id d w.now))
      (d.Breaks w (.ofDraft id d w.now)) := by
  have hx := Entry.Made.ofDraft id d w.now
  have hf := World.Gains.follows (l := []) h rfl
  obtain ⟨user, order, amount, kind, method, description⟩ := d
  cases kind with
  | charge =>
    cases method with
    | card => exact risks_card h hx nofun rfl rfl rfl rfl
    | bankTransfer => exact risks_note h hx nofun rfl rfl
    | adminCredit => exact risks_completeFreshly h hf rfl hx nofun rfl nofun
    | wallet | cashOnDelivery => cases hs
  | withdrawal =>
    obtain rfl : method = .bankTransfer := hs
    exact .alone nofun nofun h hx
  | payment =>
    cases method with
    | wallet =>
      change ((Wallet.requireCovered _ _ >>= fun _ => Wallet.instant _ _) >>=
        Payment.completeBy _).Risks _ _ _
      rw [LawfulMonad.bind_assoc]
      have hcovered := covers_of_gains h rfl (hs.2 rfl)
      refine ((Wallet.vets_requireCovered _ _).leads_of_run h.calm
        ((Wallet.run_requireCovered_eq_returned h.calm).2 hcovered)).risks ?_ fun f => .alone h
      exact risks_instant_completeBy h hx rfl rfl
    | card => exact risks_card h hx nofun rfl rfl rfl rfl
    | cashOnDelivery => exact risks_note h hx nofun rfl rfl
    | bankTransfer | adminCredit => cases hs.1
  | refund =>
    cases method with
    | wallet => exact risks_instant_completeBy h hx rfl rfl
    | card => exact risks_completeFreshly h hf rfl hx nofun rfl nofun
    | cashOnDelivery =>
      refine risks_change rfl ?_
      have hnoted := hx.noted "Manual cash refund required" w₁.now
      exact risks_completeFreshly h (hf.of_origin rfl rfl) rfl hnoted nofun rfl nofun
    | bankTransfer | adminCredit => cases hs

end Move

end Draft

/-! ## Actions -/

/-- Whether both gateways approve. -/
def World.Approves (w : World) : Prop := ∀ desk, w.verdict desk = .approved

namespace Action

/-- Whether the store is ready for an action. -/
def Sound (w : World) : Action → Prop
  | refuse _ | stop => True
  | instant d _ => d.kind ∈ EntryKind.ofWallet
  | entrust d => d.Sound w.store
  | settle e status _ _ => w.store.get? e.id = some e ∧ e.status = .pending ∧ status ≠ .pending

/-- How an action ends that runs alone, and what is in the world then. -/
inductive Effect (w : World) : Action → Outcome Entry → World → Prop
  | refused {f : Failure} : Effect w (.refuse f) (.failed f) w
  | stopped : Effect w .stop .overflowed w
  | instant {d : Draft} {word reference : String} {e : Entry} {w' : World}
      (gains : w.Gains none [e] w') (made : e.Made d w.now .completed (some reference)) :
      Effect w (.instant d word) (.returned e) w'
  | entrusted {d : Draft} {e : Entry} {w' : World} (done : d.Done w e w') :
      Effect w (.entrust d) (.returned e) w'
  | declined {d : Draft} {desk : CardDesk} {f : Failure} {e : Entry} {w' : World}
      (declined : d.Declined w desk f) (gains : w.Gains (some desk) [e] w')
      (made : e.Made d w.now .failed none) : Effect w (.entrust d) (.failed f) w'
  | settled {e e' : Entry} {status : Status} {reference notes : Option String} {w' : World}
      (kept : w.Kept none w') (origin : e'.origin = e.origin) (final : e'.status = status)
      (processed : e'.processedAt = some w.now) (store : w'.store = w.store.replace e') :
      Effect w (.settle e status reference notes) (.returned e') w'

/-- What an action leaves in the store when one of its calls failed. -/
def Leaves (w : World) : Action → World → Prop
  | refuse _, w' | stop, w' | settle _ _ _ _, w' => w'.store = w.store
  | instant d _, w' | entrust d, w' => ∃ es, w.store.Extends es w'.store ∧ Residue d w.now es

section Risks

variable {w w₁ : World} {d : Draft} {e e₁ : Entry} {status : Status}
variable {reference notes : Option String}

theorem risks_instant (hw : w.Calm) (d : Draft) (word : String) :
    (instant d word).program.Risks w ((instant d word).Effect w)
      (fun _ w' => (instant d word).Leaves w w') := by
  refine Wallet.risks_instant (.refl hw) ?_ ?_ ?_
  · rintro _ id reference w₁ rfl h₁
    exact .instant h₁ ((Entry.Made.ofDraft id d w.now).bumped_result (.complete reference))
  · intro f w₁ h₁
    exact ⟨[], h₁.store, .nothing⟩
  · intro f e w₁ hmade h₁
    exact ⟨[e], h₁.store, .failed hmade (fun hne => absurd rfl hne) .nothing⟩

theorem risks_entrust (hw : w.Calm) (hs : d.Sound w.store) :
    (entrust d).program.Risks w ((entrust d).Effect w)
      (fun _ w' => w.Approves → (entrust d).Leaves w w') := by
  refine risks_bind (risks_book (.refl hw) ?_ fun f _ => ⟨[], .refl _, .nothing⟩)
  intro id w₁ h₁
  have hx := Entry.Made.ofDraft id d w.now
  refine risks_onFailure ((Draft.risks_move hs h₁).mono ?_ ?_)
  · rintro (e | f | _) w₂ h₂
    · exact .entrusted h₂
    · obtain ⟨desk, hdeclined, h₂⟩ := h₂
      refine (yields_abandon_gains (l := []) h₂ rfl fun w₃ h₃ => ?_).risks fun _ _ happroves => ?_
      · exact .declined hdeclined h₃ (hx.bumped_result (.fail f.detail))
      · have hverdict := hdeclined.verdict
        rw [happroves desk] at hverdict
        cases hverdict
    · exact h₂.elim
  · rintro (e | f | _) w₂ h₂
    · exact h₂.elim
    · obtain ⟨desk, es, h₂, hrest, hundone⟩ := h₂
      refine yields_abandon_gains (l := []) h₂ rfl fun w₃ h₃ _ => ?_
      exact ⟨_, h₃.store, .failed (hx.bumped_result (.fail f.detail)) hrest hundone⟩
    · exact h₂.elim

/-- The last update of a settlement. -/
theorem risks_settle {c : Change} (hk : w.Kept none w₁) (hst : w₁.store = w.store)
    (hf : w.store.Follows e₁) (ho : e₁.origin = e.origin) (hp : e₁.status = .pending)
    (hc : c.status? = some status) :
    (change c e₁ >>= update).Risks w₁ ((settle e status reference notes).Effect w)
      (fun _ w' => (settle e status reference notes).Leaves w w') := by
  have hf₁ : w₁.store.Follows (c.result e₁ w₁.now) :=
    hst ▸ hf.of_origin (c.origin_result e₁ w₁.now) (c.version_result e₁ w₁.now)
  refine risks_change hp (risks_update hk.calm hf₁ ?_ fun _ => hst)
  refine .settled (hk.withStore _) ((c.origin_result e₁ w₁.now).trans ho) ?_ ?_ ?_
  · rw [Entry.status_bumped, Change.status_result, hc, Option.getD_some]
  · rw [← hk.now]
    exact Change.processedAt_result hc e₁ w₁.now
  · rw [World.store_withStore, hst]

theorem risks_finish (hk : w.Kept none w₁) (hst : w₁.store = w.store) (hf : w.store.Follows e₁)
    (ho : e₁.origin = e.origin) (hp : e₁.status = .pending) :
    (Payment.finish reference e₁).Risks w₁ ((settle e .completed reference notes).Effect w)
      (fun _ w' => (settle e .completed reference notes).Leaves w w') := by
  cases reference with
  | some reference => exact risks_settle hk hst hf ho hp rfl
  | none =>
    refine risks_request (r := .token) (fun _ => rfl) ?_
    exact risks_settle hk.token hst hf ho hp rfl

theorem risks_conclude (hw : w.Calm) (hget : w.store.get? e.id = some e)
    (hp : e.status = .pending) (hstatus : status ≠ .pending) :
    (settle e status reference notes).program.Risks w
      ((settle e status reference notes).Effect w)
      (fun _ w' => (settle e status reference notes).Leaves w w') := by
  have hf : w.store.Follows e := ⟨e, hget, hp, rfl, rfl⟩
  cases status with
  | completed =>
    change (Payment.annotate notes e >>= Payment.finish reference).Risks _ _ _
    cases notes with
    | some text =>
      exact risks_change hp (risks_finish (.refl hw) rfl (hf.of_origin rfl rfl) rfl hp)
    | none => exact risks_finish (.refl hw) rfl hf rfl hp
  | failed | cancelled => exact risks_settle (.refl hw) rfl hf rfl hp rfl
  | pending => exact absurd rfl hstatus

/-- An action has its effect, and leaves nothing of worth behind when one of its calls fails and the
gateways approve. -/
theorem risks {a : Action} (hw : w.Calm) (hs : a.Sound w) :
    a.program.Risks w (a.Effect w) (fun _ w' => w.Approves → a.Leaves w w') := by
  cases a with
  | refuse f => exact .refused
  | stop => exact .stopped
  | instant d word => exact (risks_instant hw d word).mono (fun _ _ h => h) fun _ _ h _ => h
  | entrust d => exact risks_entrust hw hs
  | settle e status reference notes =>
    obtain ⟨hget, hp, hstatus⟩ := hs
    exact (risks_conclude hw hget hp hstatus).mono (fun _ _ h => h) fun _ _ h _ => h

end Risks

end Action

/-! ## Calls -/

namespace Call

variable {t : Terms} {w : World} {c : Call} {a : Action}

/-- Only a refund may come to an action that the store is not ready for. -/
theorem Plans.sound_or_unpayable (h : Plans t w c a) : a.Sound w ∨
    ∃ d, a = .entrust d ∧ d.kind = .refund ∧ Payment.canPay d.method = false := by
  cases h with
  | refuse | stop => exact .inl trivial
  | charge usable _ => exact .inl usable
  | withdraw => exact .inl rfl
  | withdrawForPayment | adminCredit | adminDebit =>
    exact .inl (by simp [Action.Sound, EntryKind.ofWallet])
  | pay usable covered => exact .inl ⟨usable, covered⟩
  | @refund _ _ _ _ paid =>
    cases hpay : Payment.canPay paid.method with
    | true => exact .inl hpay
    | false => exact .inr ⟨_, rfl, rfl, hpay⟩
  | settle stored pending final _ =>
    exact .inl ⟨(Store.get?_eq_some.1 stored).2 ▸ stored, pending, final⟩

theorem Plans.sound (h : Plans t w c a) (hpay : w.store.Payable) : a.Sound w := by
  refine h.sound_or_unpayable.resolve_right ?_
  rintro ⟨d, rfl, hkind, hmethod⟩
  cases h with
  | charge | withdraw | pay => cases hkind
  | refund stored kind =>
    rw [hpay _ (Store.get?_eq_some.1 stored).1 kind] at hmethod
    cases hmethod

/-- A call comes to an action with its effect, and leaves nothing of worth behind when a call of the
store fails and the gateways approve. -/
theorem risks (t : Terms) (hw : w.Calm) (hpay : w.store.Payable) (c : Call) :
    ∃ a : Action, Plans t w c a ∧ (c.program t).Risks w (a.Effect w)
      (fun _ w' => w.Approves → a.Leaves w w') := by
  obtain ⟨a, hplan, hleads⟩ := c.comes t hw
  have hleads := hleads w (.refl c hw)
  refine ⟨a, hplan, hleads.risks (Action.risks hw (hplan.sound hpay)) fun _ _ => ?_⟩
  cases a with
  | refuse | stop | settle => rfl
  | instant | entrust => exact ⟨[], .refl _, .nothing⟩

/-- A call that runs alone has the effect of an action that it may come to. -/
theorem effect (t : Terms) (hw : w.Calm) (hpay : w.store.Payable) (c : Call) :
    ∃ a : Action, Plans t w c a ∧ a.Effect w (c.run t w).1 (c.run t w).2 := by
  obtain ⟨a, hplan, hrisks⟩ := c.risks t hw hpay
  exact ⟨a, hplan, hrisks.yields⟩

end Call

end Paybook
