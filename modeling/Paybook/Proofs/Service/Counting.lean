import Paybook.Proofs.Service.Locality

/-! # Entries that count

Nothing that a call decides depends on entries that are not completed, but for the one that it
names. How a call ends and what it books is a matter of the action that it comes to and of the
verdicts of the gateways: `Call.digest`. It comes to the same action in worlds whose completed
entries are the same, so it ends alike and books the same in both: `World.only_completed_count`. -/

namespace Paybook

open Program Time

variable {w w' w₁ : World} {t : Terms} {c : Call} {a : Action} {d : Draft} {e : Entry}
variable {o : Outcome Entry} {verdict : CardDesk → Verdict}

/-! ## What has changed in a store -/

namespace Store

variable {s s' : Store} {es : List Entry} {old : Entry}

/-- The entries of a store that an earlier one does not hold: the new ones, and those that have
changed. -/
def changes (s s' : Store) : List Entry := s'.entries.filter fun e => e ∉ s.entries

theorem Extends.changes (h : s.Extends es s') : s.changes s' = es := by
  have hnodup := s'.nodup_entries
  rw [h.entries] at hnodup
  have hdisjoint := List.disjoint_of_nodup_append hnodup
  have hold : (s.entries.filter fun e => e ∉ s.entries) = [] :=
    List.filter_eq_nil_iff.2 fun e he => by simpa using he
  have hnew : (es.filter fun e => e ∉ s.entries) = es :=
    List.filter_eq_self.2 fun e he => by simpa using fun hmem => hdisjoint hmem he
  rw [Store.changes, h.entries, List.filter_append, hold, hnew, List.nil_append]

theorem changes_self (s : Store) : s.changes s = [] := (Extends.refl s).changes

theorem changes_replace (h : s.get? e.id = some old) (hne : e ≠ old) :
    s.changes (s.replace e) = [e] := by
  have hreplaced : e ∈ (s.replace e).entries := by
    have hget : (s.replace e).get? e.id = some e := by rw [get?_replace, if_pos rfl, h]; rfl
    exact (get?_eq_some.1 hget).1
  have hnew : e ∉ s.entries := fun hmem =>
    hne (Option.some.inj ((get?_eq_some.2 ⟨hmem, rfl⟩).symm.trans h))
  refine List.perm_singleton.1 ((List.perm_ext_iff_of_nodup
    ((s.replace e).nodup_entries.filter _) (List.nodup_singleton e)).2 fun x => ?_)
  rw [List.mem_filter, List.mem_singleton, decide_eq_true_eq]
  constructor
  · rintro ⟨hx, hnot⟩
    exact (mem_replaced hx).resolve_left fun hkept => hnot hkept.1
  · rintro rfl
    exact ⟨hreplaced, hnew⟩

/-- What is selected of the completed entries depends on them alone. -/
theorem query_eq_of_completed
    (h : ∀ e : Entry, e.status = .completed → (e ∈ s'.entries ↔ e ∈ s.entries)) {sel : Selection}
    (hsel : sel.status = some .completed) : s'.query sel = s.query sel := by
  have hmem : ∀ e, e ∈ s'.query sel ↔ e ∈ s.query sel := fun e => by
    rw [mem_query, mem_query]
    exact and_congr_left fun he => h e ((Selection.selects_iff.1 he).2.2.1 _ hsel)
  have hascending : ∀ s : Store, (s.query sel).Pairwise fun e e' => e.id < e'.id := fun s =>
    (List.pairwise_map.1 s.ascending).filter _
  refine ((List.perm_ext_iff_of_nodup (s'.nodup_entries.filter _) (s.nodup_entries.filter _)).2
    hmem).eq_of_pairwise ?_ (hascending s') (hascending s)
  exact fun e e' _ _ hlt hlt' => absurd hlt (Nat.lt_asymm hlt')

end Store

/-! ## What is booked -/

/-- What an entry books, whatever it is called and whenever it was made. -/
structure Booking where
  user : Nat
  order : Option Nat
  amount : Amount
  kind : EntryKind
  method : Method
  status : Status
deriving DecidableEq, Repr

def Entry.booking (e : Entry) : Booking :=
  ⟨e.user, e.order, e.amount, e.kind, e.method, e.status⟩

/-- How a call ends, whatever the entry is called and the text says. -/
inductive Ending where
  | booked (b : Booking)
  | failed (kind : FailureKind)
  | overflowed
deriving DecidableEq, Repr

def Outcome.ending : Outcome Entry → Ending
  | returned e => .booked e.booking
  | failed f => .failed f.kind
  | overflowed => .overflowed

namespace Draft

/-- What the entry of a draft books in a status. -/
def booking (d : Draft) (status : Status) : Booking :=
  ⟨d.user, d.order, d.amount, d.kind, d.method, status⟩

/-- What the entry of the wallet books that moves the money of a draft, if one does. -/
def legBooking? (d : Draft) : Option Booking :=
  if d.method = .wallet then
    d.kind.leg?.map fun kind => ⟨d.user, none, d.amount, kind, .wallet, .completed⟩
  else none

/-- Whether the money of a draft is moved: no gateway declines to move it, and it need not go back
by a method that nothing is paid by. -/
def isMoved (d : Draft) (verdict : CardDesk → Verdict) : Bool :=
  (d.kind != .refund || Payment.canPay d.method) &&
    d.desk?.all fun desk => verdict desk == .approved

theorem isMoved_of_sound {s : Store} (h : d.Sound s) : d.isMoved verdict = true ↔
    ∀ desk, d.desk? = some desk → verdict desk = .approved := by
  have hpayable : (d.kind != .refund || Payment.canPay d.method) = true := by
    unfold Sound at h
    cases hkind : d.kind with
    | refund =>
      rw [hkind] at h
      exact h
    | charge | withdrawal | payment => rfl
  rw [isMoved, hpayable, Bool.true_and, Option.all_eq_true]
  simp

end Draft

theorem Entry.Made.booking {now : Instant} {status : Status} {reference : Option String}
    (h : e.Made d now status reference) : e.booking = d.booking status := by
  rw [Entry.booking, h.user_eq, h.amount_eq, h.kind_eq, h.method_eq, h.status_eq,
    Entry.order_eq_of_origin h.origin]
  rfl

namespace Draft.Done

theorem approved (h : d.Done w e w₁) {desk : CardDesk} (hdesk : d.desk? = some desk) :
    w.verdict desk = .approved := by
  cases h with
  | alone _ approved => exact approved desk hdesk
  | paired method =>
    rw [desk?_of_wallet method] at hdesk
    cases hdesk

theorem booking (h : d.Done w e w₁) : e.booking = d.booking d.status := by
  obtain ⟨_, made⟩ := h.made
  exact made.booking

theorem bookings (h : d.Done w e w₁) : (w.store.changes w₁.store).map Entry.booking =
    d.booking d.status :: d.legBooking?.toList := by
  have hbooking := h.booking
  cases h with
  | alone method _ gains _ =>
    rw [gains.store.changes, List.map_singleton, hbooking, legBooking?, if_neg method]
    rfl
  | paired method legKind gains _ legMade =>
    rw [gains.store.changes, List.map_cons, List.map_singleton, hbooking, legMade.booking,
      legBooking?, if_pos method, legKind]
    rfl

end Draft.Done

/-! ## What actions book -/

namespace Action

/-- How an action ends when the gateways give these verdicts. -/
def ending (verdict : CardDesk → Verdict) : Action → Ending
  | refuse f => .failed f.kind
  | stop => .overflowed
  | instant d _ => .booked (d.booking .completed)
  | entrust d =>
    if d.isMoved verdict then .booked (d.booking d.status) else .failed .processingFailure
  | settle e status _ _ => .booked { e.booking with status := status }

/-- What an action books when the gateways give these verdicts. -/
def bookings (verdict : CardDesk → Verdict) : Action → List Booking
  | refuse _ | stop => []
  | instant d _ => [d.booking .completed]
  | entrust d =>
    if d.isMoved verdict then d.booking d.status :: d.legBooking?.toList else [d.booking .failed]
  | settle e status _ _ => [{ e.booking with status := status }]

/-- Whether an action has ended and booked as it does when the gateways give these verdicts. -/
structure Digest (a : Action) (verdict : CardDesk → Verdict) (w : World) (o : Outcome Entry)
    (w₁ : World) : Prop where
  ending : o.ending = a.ending verdict
  bookings : (w.store.changes w₁.store).map Entry.booking = a.bookings verdict

/-- When the money of an entry is not moved, the entry is failed. -/
theorem digest_failed {f : Failure} {desk : Option CardDesk} (hmoved : d.isMoved verdict = false)
    (hf : f.kind = .processingFailure) (gains : w.Gains desk [e] w₁)
    (made : e.Made d w.now .failed none) : (entrust d).Digest verdict w (.failed f) w₁ where
  ending := by rw [Action.ending, hmoved, Outcome.ending, hf]; rfl
  bookings := by
    rw [gains.store.changes, List.map_singleton, made.booking, Action.bookings, hmoved]
    rfl

theorem digest_entrusted (hs : d.Sound w.store) (done : d.Done w e w₁) :
    (entrust d).Digest w.verdict w (.returned e) w₁ := by
  have hmoved : d.isMoved w.verdict = true :=
    (Draft.isMoved_of_sound hs).2 fun _ hdesk => done.approved hdesk
  refine ⟨?_, ?_⟩
  · rw [Action.ending, if_pos hmoved, ← done.booking]
    rfl
  · rw [Action.bookings, if_pos hmoved, done.bookings]

theorem digest_settled {e' : Entry} {status : Status} {reference notes : Option String}
    (stored : w.store.get? e.id = some e) (pending : e.status = .pending)
    (hstatus : status ≠ .pending) (origin : e'.origin = e.origin) (final : e'.status = status)
    (store : w₁.store = w.store.replace e') :
    (settle e status reference notes).Digest verdict w (.returned e') w₁ := by
  have hbooking : e'.booking = { e.booking with status := status } := by
    rw [Entry.booking, Entry.user_eq_of_origin origin, Entry.order_eq_of_origin origin,
      Entry.amount_eq_of_origin origin, Entry.kind_eq_of_origin origin,
      Entry.method_eq_of_origin origin, final]
    rfl
  have hchanged : e' ≠ e := by
    rintro rfl
    exact hstatus (final.symm.trans pending)
  refine ⟨congrArg Ending.booked hbooking, ?_⟩
  rw [store, Store.changes_replace (Entry.id_eq_of_origin origin ▸ stored) hchanged,
    List.map_singleton, hbooking]
  rfl

theorem Effect.digest (h : a.Effect w o w₁) (hs : a.Sound w) : a.Digest w.verdict w o w₁ := by
  cases h with
  | refused | stopped => exact ⟨rfl, by rw [Store.changes_self]; rfl⟩
  | instant gains made =>
    refine ⟨congrArg Ending.booked made.booking, ?_⟩
    rw [gains.store.changes, List.map_singleton, made.booking]
    rfl
  | entrusted done => exact digest_entrusted hs done
  | @declined d _ _ _ _ declined gains made =>
    have hmoved : d.isMoved w.verdict = false := by
      rw [Bool.eq_false_iff, Ne, Draft.isMoved_of_sound hs]
      intro happroved
      have hverdict := happroved _ declined.asked
      rw [declined.verdict] at hverdict
      cases hverdict
    exact digest_failed hmoved declined.kind gains made
  | settled _ origin final _ store => exact digest_settled hs.1 hs.2.1 hs.2.2 origin final store

/-- A refund by a method that nothing is paid by is booked and failed. -/
theorem yields_unpayable (hw : w.Calm) (hkind : d.kind = .refund)
    (hmethod : Payment.canPay d.method = false) :
    (entrust d).program.Yields w ((entrust d).Digest verdict w) := by
  obtain ⟨text, hmove⟩ : ∃ text, ∀ e, d.move e = fail (.processingFailure text) := by
    unfold Draft.move
    rw [hkind]
    cases hm : d.method with
    | bankTransfer | adminCredit => exact ⟨_, fun _ => rfl⟩
    | wallet | card | cashOnDelivery =>
      rw [hm] at hmethod
      cases hmethod
  have hmoved : d.isMoved verdict = false := by rw [Draft.isMoved, hkind, hmethod]; rfl
  refine (risks_bind (R := fun _ _ => True) (risks_book (.refl hw) ?_ fun _ => trivial)).yields
  intro id w₁ h₁
  refine Yields.risks ?_ fun _ _ => trivial
  rw [hmove]
  refine yields_abandon_gains (l := []) h₁ rfl fun w₂ h₂ => ?_
  exact digest_failed hmoved rfl h₂ ((Entry.Made.ofDraft id d w.now).bumped_result (.fail _))

end Action

/-! ## What calls book -/

namespace Call

/-- Worlds that look the same to a call make it end alike and book the same. -/
theorem digest (t : Terms) (hw : w.Calm) (c : Call) : ∃ a : Action, ∀ w', c.Sees w w' →
    a.Digest w'.verdict w' (c.run t w').1 (c.run t w').2 := by
  obtain ⟨a, hplan, hleads⟩ := c.comes t hw
  refine ⟨a, fun w' hs => ?_⟩
  change (c.program t).Yields w' (a.Digest w'.verdict w')
  unfold Yields
  rw [(hleads w' hs).run_eq]
  rcases hplan.sound_or_unpayable with hsound | ⟨d, rfl, hkind, hmethod⟩
  · have hsound' := hplan.sound_of_sees hs hsound
    exact (Action.risks hs.calm hsound').yields.digest hsound'
  · exact Action.yields_unpayable hs.calm hkind hmethod

end Call

/-! ## Worlds with the same completed entries -/

namespace World

/-- Whether two worlds are the same but for entries that are not completed, and for the identifiers
and random numbers that come next. -/
structure Matches (w w' : World) : Prop where
  completed : ∀ e : Entry, e.status = .completed → (e ∈ w'.store.entries ↔ e ∈ w.store.entries)
  users : w'.users = w.users
  orders : w'.orders = w.orders
  now : w'.now = w.now
  verdict : w'.verdict = w.verdict

theorem matches_withStore (w : World) {s : Store}
    (h : ∀ e : Entry, e.status = .completed → (e ∈ s.entries ↔ e ∈ w.store.entries)) :
    w.Matches (w.withStore s) :=
  ⟨h, rfl, rfl, rfl, funext fun desk => by cases desk <;> rfl⟩

/-- A call looks at nothing else, but for the entry that it names. -/
theorem Matches.sees (h : w.Matches w') (hw' : w'.Calm)
    (hnamed : ∀ id, c.named? = some id → w'.store.get? id = w.store.get? id) : c.Sees w w' :=
  ⟨hw', h.now, h.users, h.orders, hnamed,
    fun _ hsel _ _ _ => Store.query_eq_of_completed h.completed hsel⟩

theorem Matches.run_balance_eq (h : w.Matches w') (hw : w.Calm) (hw' : w'.Calm) (user : Nat) :
    ((Wallet.balance user).run w').1 = ((Wallet.balance user).run w).1 := by
  refine run_require_bind_eq ?_
  rw [run_holds hw, run_holds hw', Store.query_eq_of_completed h.completed rfl]
  exact run_inRange_eq _

/-- Only completed entries count. In two worlds that differ in nothing but entries that are not
completed, and in the identifiers and random numbers that come next, every balance is the same.
Every call ends alike, with an entry that books the same or with a failure of the same kind, and it
books the same: whatever is in the store behind the call and was not before is of the same user and
order, of the same amount and in the same status. If the call names an entry, it must be the same
one in both worlds. -/
theorem only_completed_count (t : Terms) {w w' : World} (hw : w.Calm) (hw' : w'.Calm)
    (h : w.Matches w') :
    (∀ user, ((Wallet.balance user).run w').1 = ((Wallet.balance user).run w).1) ∧
    ∀ c : Call, (∀ id, c.named? = some id → w'.store.get? id = w.store.get? id) →
      (c.run t w').1.ending = (c.run t w).1.ending ∧
      (w'.store.changes (c.run t w').2.store).map Entry.booking =
        (w.store.changes (c.run t w).2.store).map Entry.booking := by
  refine ⟨h.run_balance_eq hw hw', fun c hnamed => ?_⟩
  obtain ⟨a, hdigest⟩ := c.digest t hw
  have hhere := hdigest w (.refl c hw)
  have hthere := hdigest w' (h.sees hw' hnamed)
  rw [h.verdict] at hthere
  exact ⟨hthere.ending.trans hhere.ending.symm, hthere.bookings.trans hhere.bookings.symm⟩

/-- A withdrawal of forty from a wallet of a hundred is completed, whether or not another one of
ninety is pending and a charge has failed. -/
theorem only_completed_count_withdrawal :
    let w := ((World.opening {} 0 ⟨0, 0⟩ fun _ => 0).withStore .empty).after {}
      [.user ⟨1, "Ada"⟩, .call (.adminCredit 1 (.ofWord 100) "gift" 9),
        .call (.withdraw 1 (.ofWord 40) "12345678" "")]
    let s := (w.after {} [.call (.withdraw 1 (.ofWord 90) "12345678" ""),
      .call (.charge 1 (.ofWord 50) .bankTransfer ""), .call (.settle 4 .failed none none)]).store
    let w' := w.withStore s
    let c := Call.settle 2 .completed none none
    w.Calm ∧ w'.Calm ∧ w.Matches w' ∧ w'.store.get? 2 = w.store.get? 2 ∧
    w.store.lastId = 2 ∧ s.lastId = 4 ∧
    (c.run {} w').1.ending =
      .booked ⟨1, none, ⟨.ofWord 40, by decide⟩, .withdrawal, .bankTransfer, .completed⟩ := by
  intro w s w' c
  have hw : w.Calm := (written_after (calm_withStore _ _) _).1
  have hentries : s.entries = w.store.entries ++ s.entries.drop 2 := by decide +kernel
  have hopen : ∀ e ∈ s.entries.drop 2, e.status ≠ .completed := by decide +kernel
  have hmatches : w.Matches w' := w.matches_withStore fun e he => by
    rw [hentries, List.mem_append]
    exact or_iff_left fun hmem => hopen e hmem he
  have hnamed : w'.store.get? 2 = w.store.get? 2 := by decide +kernel
  obtain ⟨-, hcalls⟩ := only_completed_count {} hw (calm_withStore _ _) hmatches
  obtain ⟨hending, -⟩ := hcalls c (by rintro _ ⟨⟩; exact hnamed)
  refine ⟨hw, rfl, hmatches, hnamed, by decide +kernel, by decide +kernel, ?_⟩
  rw [hending]
  decide +kernel

end World

end Paybook
