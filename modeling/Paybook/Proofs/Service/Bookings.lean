import Paybook.Proofs.Entry.Renaming
import Paybook.Proofs.Service.Effects

/-! # Entries to the letter

An action that asks no gateway leaves nothing open but one random number. `Draft.entries` are the
entries that a draft comes to, `Payment.concluded` is what a settlement makes of an entry, and
`Action.does` says that an action does just this. -/

namespace Paybook

open Program Time

/-! ## Entries -/

namespace Draft

/-- The entry of a draft that is completed at once. -/
def completed (d : Draft) (id : Nat) (now : Instant) (reference : String) : Entry :=
  Store.bumped ((Change.complete reference).result (.ofDraft id d now) now)

/-- The entry of a draft that awaits what a note says. -/
def noted (d : Draft) (id : Nat) (now : Instant) (text : String) : Entry :=
  Store.bumped ((Change.note text).result (.ofDraft id d now) now)

/-- The draft of the entry of the wallet that moves the money. -/
def leg (d : Draft) (kind : EntryKind) (text : String) : Draft :=
  ⟨d.user, none, d.amount, kind, .wallet, text⟩

/-- The entries that come of a draft when no gateway is asked, under the identifiers from one on.
References of their own are made of words. -/
def entries (d : Draft) (id : Nat) (now : Instant) (tag : String → String) : List Entry :=
  match d.kind, d.method with
  | .charge, .bankTransfer => [d.noted id now "Awaiting bank transfer verification"]
  | .charge, _ => [d.completed id now (tag "ADMIN")]
  | .withdrawal, _ => [.ofDraft id d now]
  | .payment, .wallet =>
    [d.completed id now s!"WALLET-{id + 1}",
      (d.leg .withdrawal ("Payment for " ++ s!"order #{d.order.getD 0}")).completed (id + 1) now
        (tag "WALLET-DEBIT")]
  | .payment, _ => [d.noted id now "Cash on delivery: payment pending until delivery"]
  | .refund, .wallet =>
    [d.completed id now s!"WALLET-{id + 1}",
      (d.leg .charge ("REFUND: " ++ s!"order #{d.order.getD 0} (refund #{id})")).completed (id + 1)
        now (tag "REFUND")]
  | .refund, .card => [d.completed id now (tag "CARD-REFUND")]
  | .refund, _ =>
    [Store.bumped ((Change.complete (tag "COD-REFUND")).result
      ((Change.note "Manual cash refund required").result (.ofDraft id d now) now) now)]

end Draft

/-- What a settlement makes of a pending entry. -/
def Payment.concluded (e : Entry) (status : Status) (reference notes : Option String)
    (now : Instant) (tag : String → String) : Entry :=
  match status with
  | .completed => Store.bumped ((Change.complete (reference.getD (tag "MANUAL"))).result
      (notes.elim e fun text => (Change.note text).result e now) now)
  | .failed => Store.bumped ((Change.fail
      (notes.getD "Reported failed by settlement callback")).result e now)
  | .cancelled => Store.bumped ((Change.cancel
      (notes.getD "Cancelled by settlement callback")).result e now)
  | .pending => e

theorem Payment.origin_concluded (e : Entry) (status : Status) (reference notes : Option String)
    (now : Instant) (tag : String → String) :
    (concluded e status reference notes now tag).origin = e.origin := by
  cases status with
  | completed => cases notes <;> rfl
  | failed | cancelled | pending => rfl

/-! ## Entries renamed -/

section Renamed

variable {R : Nat → Nat → Prop} {id id' : Nat} {tag tag' : String → String}

theorem Requoted.wallet {i j : Nat} (h : R i j) : Requoted R s!"WALLET-{i}" s!"WALLET-{j}" := by
  have hquoted := Requoted.quoted "WALLET-" "" h
  rw [String.append_empty, String.append_empty] at hquoted
  exact hquoted

namespace Draft

theorem renamed_completed (d : Draft) (now : Instant) (hid : R id id')
    {reference reference' : String} (h : Requoted R reference reference') :
    (d.completed id now reference).Renamed R (d.completed id' now reference') :=
  ⟨hid, .some h, .same _, rfl⟩

theorem renamed_noted (d : Draft) (now : Instant) (hid : R id id') (text : String) :
    (d.noted id now text).Renamed R (d.noted id' now text) :=
  ⟨hid, .none, .same _, rfl⟩

theorem renamed_leg (d : Draft) (kind : EntryKind) (now : Instant) (hid : R id id')
    {text text' reference reference' : String} (htext : Requoted R text text')
    (h : Requoted R reference reference') :
    ((d.leg kind text).completed id now reference).Renamed R
      ((d.leg kind text').completed id' now reference') :=
  ⟨hid, .some h, htext, rfl⟩

/-- What a draft comes to under other identifiers is the same, renamed. -/
theorem renamed_entries (d : Draft) (now : Instant)
    (htag : ∀ word, Requoted R (tag word) (tag' word))
    (hids : ∀ i < (d.entries id now tag).length, R (id + i) (id' + i)) :
    RenamedAll R (d.entries id now tag) (d.entries id' now tag') := by
  obtain ⟨user, order, amount, kind, method, description⟩ := d
  cases kind with
  | charge =>
    cases method with
    | bankTransfer => exact .cons (renamed_noted _ now (hids 0 Nat.one_pos) _) .nil
    | wallet | card | cashOnDelivery | adminCredit =>
      exact .cons (renamed_completed _ now (hids 0 Nat.one_pos) (htag _)) .nil
  | withdrawal => exact .cons ⟨hids 0 Nat.one_pos, .none, .same _, rfl⟩ .nil
  | payment =>
    cases method with
    | wallet =>
      have hleg := hids 1 Nat.one_lt_two
      refine .cons (renamed_completed _ now (hids 0 Nat.two_pos) (.wallet hleg)) (.cons ?_ .nil)
      exact renamed_leg _ .withdrawal now hleg (.same _) (htag _)
    | card | bankTransfer | cashOnDelivery | adminCredit =>
      exact .cons (renamed_noted _ now (hids 0 Nat.one_pos) _) .nil
  | refund =>
    cases method with
    | wallet =>
      have hid : R id id' := hids 0 Nat.two_pos
      have hleg := hids 1 Nat.one_lt_two
      refine .cons (renamed_completed _ now hid (.wallet hleg)) (.cons ?_ .nil)
      refine renamed_leg _ .charge now hleg ?_ (htag _)
      have htext := Requoted.quoted ("REFUND: " ++ s!"order #{order.getD 0} (refund #") ")" hid
      simp only [String.append_assoc] at htext ⊢
      exact htext
    | card => exact .cons (renamed_completed _ now (hids 0 Nat.one_pos) (htag _)) .nil
    | bankTransfer | cashOnDelivery | adminCredit =>
      exact .cons ⟨hids 0 Nat.one_pos, .some (htag _), .same _, rfl⟩ .nil

end Draft

/-- A settlement makes the same of an entry, whatever random number it takes. -/
theorem Payment.renamed_concluded {e : Entry} (h : R e.id e.id) (status : Status)
    (reference notes : Option String) (now : Instant)
    (htag : ∀ word, Requoted R (tag word) (tag' word)) :
    (concluded e status reference notes now tag).Renamed R
      (concluded e status reference notes now tag') := by
  cases status with
  | completed =>
    refine ⟨?_, ?_, .same _, rfl⟩
    · rw [Entry.id_eq_of_origin (origin_concluded e _ _ _ _ _),
        Entry.id_eq_of_origin (origin_concluded e _ _ _ _ _)]
      exact h
    · cases reference with
      | none => exact .some (htag _)
      | some reference => exact .some (.same _)
  | failed | cancelled | pending => exact .refl h

end Renamed

/-! ## Programs that book -/

/-- Whether a program returns something and has booked these entries by then, without having asked a
gateway. -/
def World.Books {α : Type} (w : World) (p : Program α) (w₁ : World) (a : α) (es : List Entry) :
    Prop :=
  p.Yields w₁ fun o w₂ => o = .returned a ∧ w.Gains none es w₂

section Books

variable {α β : Type} {w w₁ : World} {p : Program α} {a : α} {b : β} {es es' l r : List Entry}
variable {x e : Entry}

theorem books_pure (h : w.Gains none es w₁) (a : α) : w.Books (pure a) w₁ a es := ⟨rfl, h⟩

/-- What follows goes on from the entries that the first part has booked. -/
theorem books_bind {f : α → Program β} (h : w.Books p w₁ a es) : ∃ w₂, w.Gains none es w₂ ∧
    ∀ b es', w.Books (f a) w₂ b es' → w.Books (p >>= f) w₁ b es' := by
  obtain ⟨hrun, h₂⟩ := h
  refine ⟨_, h₂, fun b es' hf => yields_bind ?_⟩
  unfold Yields
  rw [hrun]
  exact hf

theorem World.Books.onFailure {handle : Failure → Program α} (h : w.Books p w₁ a es) :
    w.Books (p.onFailure handle) w₁ a es := by
  refine yields_onFailure (h.mono ?_)
  rintro _ w₂ ⟨rfl, h₂⟩
  exact ⟨rfl, h₂⟩

theorem World.Books.of_leads {q : Program α} (h : w.Books q w₁ a es) (hl : Leads w₁ p q) :
    w.Books p w₁ a es := by
  unfold World.Books Yields
  rw [hl.run_eq]
  exact h

/-- A new entry gets the identifier that comes next. -/
theorem books_book (h : w.Gains none es w₁) (d : Draft) :
    w.Books (book d) w₁ (.ofDraft (w.store.lastId + es.length + 1) d w.now)
      (es ++ [.ofDraft (w.store.lastId + es.length + 1) d w.now]) := by
  have hnew := h.insert d
  refine yields_request (r := .insert d) ?_
  rw [h.calm.answer_insert, ← h.store.lastId, ← h.now] at *
  exact ⟨rfl, hnew⟩

theorem books_amend {c : Change} (h : w.Gains none (l ++ x :: r) w₁) (hf : w₁.store.Follows e)
    (hid : e.id = x.id) (hp : e.status = .pending) :
    w.Books (change c e >>= update) w₁ (Store.bumped (c.result e w.now))
      (l ++ Store.bumped (c.result e w.now) :: r) :=
  (risks_amend (R := fun _ _ => True) h hf hid hp (fun _ h₂ => ⟨rfl, h₂⟩) fun _ => trivial).yields

theorem books_completeFreshly (h : w.Gains none (l ++ x :: r) w₁) (hf : w₁.store.Follows e)
    (hid : e.id = x.id) (hp : e.status = .pending) (word : String) :
    ∃ token, w.Books (completeFreshly e word) w₁
      (Store.bumped ((Change.complete (tagged token word)).result e w.now))
      (l ++ Store.bumped ((Change.complete (tagged token word)).result e w.now) :: r) :=
  ⟨w₁.tokens w₁.tokensUsed, books_amend (c := .complete _) h.token hf hid hp⟩

theorem Wallet.books_instant (h : w.Gains none es w₁) (d : Draft) (word : String) :
    ∃ token, w.Books (instant d word) w₁
      (d.completed (w.store.lastId + es.length + 1) w.now (tagged token word))
      (es ++ [d.completed (w.store.lastId + es.length + 1) w.now (tagged token word)]) := by
  obtain ⟨w₂, h₂, hrest⟩ :=
    books_bind (f := fun e => orAbandon e (completeFreshly e word)) (books_book h d)
  obtain ⟨token, hbooks⟩ := books_completeFreshly (r := []) h₂ (h₂.follows rfl) rfl rfl word
  exact ⟨token, hrest _ _ hbooks.onFailure⟩

end Books

/-! ## Drafts -/

namespace Draft

variable {w w₁ : World} {d : Draft} {id : Nat}

/-- A booked entry is completed by the entry of the wallet that moves its money. -/
theorem books_instant_completeBy (h : w.Gains none [.ofDraft id d w.now] w₁)
    (hid : id = w.store.lastId + 1) (kind : EntryKind) (text word : String) :
    ∃ token, w.Books (Wallet.instant (d.leg kind text) word >>=
        Payment.completeBy (.ofDraft id d w.now)) w₁
      (d.completed id w.now s!"WALLET-{id + 1}")
      [d.completed id w.now s!"WALLET-{id + 1}",
        (d.leg kind text).completed (id + 1) w.now (tagged token word)] := by
  obtain ⟨token, hleg⟩ := Wallet.books_instant h (d.leg kind text) word
  obtain ⟨w₂, h₂, hrest⟩ := books_bind (f := Payment.completeBy (.ofDraft id d w.now)) hleg
  subst hid
  have hf := World.Gains.follows (l := []) h₂ rfl
  exact ⟨token, hrest _ _ (books_amend (l := []) h₂ hf rfl rfl).onFailure⟩

/-- The money of a booked entry is moved to the letter. -/
theorem books_move (hs : d.Sound w.store) (hdesk : d.desk? = none)
    (h : w.Gains none [.ofDraft id d w.now] w₁) (hid : id = w.store.lastId + 1) :
    ∃ token e es, d.entries id w.now (tagged token) = e :: es ∧
      w.Books (d.move (.ofDraft id d w.now)) w₁ e (e :: es) := by
  have hf := World.Gains.follows (l := []) h rfl
  obtain ⟨user, order, amount, kind, method, description⟩ := d
  cases kind with
  | charge =>
    cases method with
    | card => cases hdesk
    | bankTransfer => exact ⟨0, _, _, rfl, books_amend (l := []) h hf rfl rfl⟩
    | adminCredit =>
      obtain ⟨token, hbooks⟩ := books_completeFreshly (l := []) h hf rfl rfl "ADMIN"
      exact ⟨token, _, _, rfl, hbooks⟩
    | wallet | cashOnDelivery => cases hs
  | withdrawal => exact ⟨0, _, _, rfl, books_pure h _⟩
  | payment =>
    cases method with
    | wallet =>
      obtain ⟨token, hbooks⟩ := books_instant_completeBy h hid .withdrawal
        ("Payment for " ++ s!"order #{order.getD 0}") "WALLET-DEBIT"
      refine ⟨token, _, _, rfl, ?_⟩
      have hcovered := covers_of_gains h rfl (hs.2 rfl)
      change w.Books ((Wallet.requireCovered _ _ >>= fun _ => Wallet.instant _ _) >>=
        Payment.completeBy _) _ _ _
      rw [LawfulMonad.bind_assoc]
      exact hbooks.of_leads ((Wallet.vets_requireCovered _ _).leads_of_run h.calm
        ((Wallet.run_requireCovered_eq_returned h.calm).2 hcovered))
    | card => cases hdesk
    | cashOnDelivery => exact ⟨0, _, _, rfl, books_amend (l := []) h hf rfl rfl⟩
    | bankTransfer | adminCredit => cases hs.1
  | refund =>
    cases method with
    | wallet =>
      obtain ⟨token, hbooks⟩ := books_instant_completeBy h hid .charge
        ("REFUND: " ++ s!"order #{order.getD 0} (refund #{id})") "REFUND"
      exact ⟨token, _, _, rfl, hbooks⟩
    | card =>
      obtain ⟨token, hbooks⟩ := books_completeFreshly (l := []) h hf rfl rfl "CARD-REFUND"
      exact ⟨token, _, _, rfl, hbooks⟩
    | cashOnDelivery =>
      have hnoted : w₁.store.Follows ((Change.note "Manual cash refund required").result
          (.ofDraft id ⟨user, order, amount, .refund, .cashOnDelivery, description⟩ w.now)
          w₁.now) :=
        hf.of_origin rfl rfl
      obtain ⟨token, hbooks⟩ := books_completeFreshly (l := []) h hnoted rfl rfl "COD-REFUND"
      refine ⟨token, _, _, ?_, yields_change rfl hbooks⟩
      rw [h.now]
      rfl
    | bankTransfer | adminCredit => cases hs

end Draft

/-! ## Actions -/

namespace Action

/-- The gateway that an action asks. -/
def desk? : Action → Option CardDesk
  | entrust d => d.desk?
  | refuse _ | stop | instant _ _ | settle _ _ _ _ => none

/-- The entries that an action adds when it asks no gateway. -/
def entries (id : Nat) (now : Instant) (tag : String → String) : Action → List Entry
  | instant d word => [d.completed id now (tag word)]
  | entrust d => d.entries id now tag
  | refuse _ | stop | settle _ _ _ _ => []

/-- How an action ends that asks no gateway, and what is in the world then, to the letter. -/
inductive Does (w : World) (tag : String → String) : Action → Outcome Entry → World → Prop
  | refused {f : Failure} : Does w tag (.refuse f) (.failed f) w
  | stopped : Does w tag .stop .overflowed w
  | booked {a : Action} {e : Entry} {es : List Entry} {w' : World}
      (exactly : a.entries (w.store.lastId + 1) w.now tag = e :: es)
      (gains : w.Gains none (e :: es) w') : Does w tag a (.returned e) w'
  | settled {e : Entry} {status : Status} {reference notes : Option String} {w' : World}
      (stored : w.store.get? e.id = some e) (kept : w.Kept none w')
      (store : w'.store =
        w.store.replace (Payment.concluded e status reference notes w.now tag)) :
      Does w tag (.settle e status reference notes)
        (.returned (Payment.concluded e status reference notes w.now tag)) w'

section Does

variable {w w₁ : World} {e : Entry} {status : Status} {reference notes : Option String}

/-- Whether a program returns an entry that it has put in place of the one of its identifier. -/
def Puts (w : World) (p : Program Entry) (w₁ : World) (e : Entry) : Prop :=
  p.Yields w₁ fun o w₂ => o = .returned e ∧ w.Kept none w₂ ∧ w₂.store = w.store.replace e

theorem puts_change {c : Change} (hk : w.Kept none w₁) (hst : w₁.store = w.store)
    (hf : w.store.Follows e) (hp : e.status = .pending) :
    Puts w (change c e >>= update) w₁ (Store.bumped (c.result e w.now)) := by
  rw [← hk.now]
  have hf₁ : w₁.store.Follows (c.result e w₁.now) :=
    hst ▸ hf.of_origin (c.origin_result e w₁.now) (c.version_result e w₁.now)
  refine (risks_change (R := fun _ _ => True) hp (risks_update hk.calm hf₁ ?_
    fun _ => trivial)).yields
  exact ⟨rfl, hk.withStore _, by rw [World.store_withStore, hst]⟩

theorem puts_finish (hk : w.Kept none w₁) (hst : w₁.store = w.store) (hf : w.store.Follows e)
    (hp : e.status = .pending) (reference : Option String) :
    Puts w (Payment.finish reference e) w₁ (Store.bumped ((Change.complete
      (reference.getD (tagged (w₁.tokens w₁.tokensUsed) "MANUAL"))).result e w.now)) := by
  cases reference with
  | some reference => exact puts_change hk hst hf hp
  | none => exact puts_change (c := .complete _) hk.token hst hf hp

/-- A settlement that takes a reference of its own makes it of the next random number. -/
theorem puts_conclude (hw : w.Calm) (hget : w.store.get? e.id = some e) (hp : e.status = .pending)
    (hstatus : status ≠ .pending) (reference notes : Option String) :
    Puts w (Payment.conclude e status reference notes) w
      (Payment.concluded e status reference notes w.now (tagged (w.tokens w.tokensUsed))) := by
  have hf : w.store.Follows e := ⟨e, hget, hp, rfl, rfl⟩
  have hk := World.Kept.refl hw
  cases status with
  | completed =>
    cases notes with
    | some text =>
      have hnoted : w.store.Follows ((Change.note text).result e w.now) := hf.of_origin rfl rfl
      exact yields_change hp (puts_finish hk rfl hnoted hp reference)
    | none => exact puts_finish hk rfl hf hp reference
  | failed => exact puts_change (c := .fail _) hk rfl hf hp
  | cancelled => exact puts_change (c := .cancel _) hk rfl hf hp
  | pending => exact absurd rfl hstatus

theorem does {a : Action} (hw : w.Calm) (hs : a.Sound w) (hdesk : a.desk? = none) :
    ∃ token, a.Does w (tagged token) (a.program.run w).1 (a.program.run w).2 := by
  cases a with
  | refuse f => exact ⟨0, .refused⟩
  | stop => exact ⟨0, .stopped⟩
  | instant d word =>
    obtain ⟨token, hrun, hgains⟩ := Wallet.books_instant (.refl hw) d word
    refine ⟨token, ?_⟩
    change Does w _ _ ((Wallet.instant d word).run w).1 _
    rw [hrun]
    exact .booked rfl hgains
  | entrust d =>
    obtain ⟨w₁, h₁, hrest⟩ :=
      books_bind (f := fun e => orAbandon e (d.move e)) (books_book (.refl hw) d)
    obtain ⟨token, e, es, hexact, hmove⟩ := d.books_move hs hdesk h₁ rfl
    obtain ⟨hrun, hgains⟩ := hrest _ _ hmove.onFailure
    refine ⟨token, ?_⟩
    change Does w _ _ ((book d >>= fun e => orAbandon e (d.move e)).run w).1 _
    rw [hrun]
    exact .booked hexact hgains
  | settle e status reference notes =>
    obtain ⟨hget, hp, hstatus⟩ := hs
    obtain ⟨hrun, hkept, hstore⟩ := puts_conclude hw hget hp hstatus reference notes
    refine ⟨w.tokens w.tokensUsed, ?_⟩
    change Does w _ _ ((Payment.conclude e status reference notes).run w).1 _
    rw [hrun]
    exact .settled hget hkept hstore

end Does

end Action

end Paybook
