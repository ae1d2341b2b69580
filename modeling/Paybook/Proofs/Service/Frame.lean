import Paybook.Proofs.Service.Outcomes

/-! # What calls leave alone

A call adds entries behind those that are there, under the identifiers that come next and for one
user, and leaves those that are there as they are; only a settlement may change the one pending
entry that it names. `Call.Frame` says so of the entries one by one. Nobody else can tell that the
call was made: what is asked about another user is answered as before, `World.framed`. -/

namespace Paybook

open Program Time

/-! ## Identifiers without gaps -/

namespace Store

variable {s s' : Store} {es : List Entry}

/-- Whether the identifiers of the entries are all those that were given. -/
def Numbered (s : Store) : Prop := s.entries.map Entry.id = List.range' 1 s.lastId

theorem Numbered.empty : Store.empty.Numbered := rfl

theorem Numbered.of_writes (h : s.Numbered) (hw : s.Writes s') : s'.Numbered := by
  cases hw with
  | insert d now =>
    have hnew : [s.upcoming d now].map Entry.id = [1 + s.lastId] :=
      congrArg (fun id => [id]) (Nat.add_comm s.lastId 1)
    rw [Numbered, entries_insert, List.map_append, h, hnew, ← List.range'_1_concat]
    rfl
  | amend e => exact (ids_replaced e s.entries).trans h

theorem Written.numbered (h : s.Written s') (hs : s.Numbered) : s'.Numbered := by
  induction h with
  | refl => exact hs
  | tail _ hw ih => exact ih.of_writes hw

/-- Entries that come behind others take the identifiers that come next. -/
theorem Numbered.ids_of_extends (h : s.Numbered) (h' : s'.Numbered) (he : s.Extends es s') :
    es.map Entry.id = List.range' (s.lastId + 1) es.length := by
  have hall : s.entries.map Entry.id ++ es.map Entry.id =
      List.range' 1 s.lastId ++ List.range' (s.lastId + 1) es.length := by
    rw [← List.map_append, ← he.entries, Nat.add_comm s.lastId 1, List.range'_append_1,
      ← he.lastId]
    exact h'
  rw [h] at hall
  exact List.append_cancel_left hall

end Store

/-! ## Frames -/

namespace Call

/-- The user whom a call is about. A refund or a settlement of nothing is about nobody. -/
def user? (s : Store) : Call → Option Nat
  | charge user _ _ _ | withdraw user _ _ _ | withdrawForPayment user _ _ | adminCredit user _ _ _
  | adminDebit user _ _ _ | pay user _ _ => some user
  | refund entry _ | settle entry _ _ _ => (s.get? entry).map Entry.user

/-- The entry that a settlement names. -/
def settled? : Call → Option Nat
  | settle entry _ _ _ => some entry
  | _ => none

/-- Whether a call may have made one entry of another one. It leaves an entry as it is in every
respect, unless it is a settlement of this entry, which was pending. -/
def Keeps (c : Call) (e e' : Entry) : Prop :=
  e' = e ∨ c.settled? = some e.id ∧ e.status = .pending ∧ e'.origin = e.origin

/-- Whether a call has made one store of another one by keeping the old entries, each at its place,
and adding new ones of the user whom it is about under the identifiers that come next. -/
structure Frame (c : Call) (s s' : Store) (old new : List Entry) : Prop where
  entries : s'.entries = old ++ new
  lastId : s'.lastId = s.lastId + new.length
  kept : List.Forall₂ c.Keeps s.entries old
  ids : new.map Entry.id = List.range' (s.lastId + 1) new.length
  user : ∀ e ∈ new, c.user? s = some e.user

variable {t : Terms} {w w' : World} {c : Call} {a : Action} {o : Outcome Entry} {s s' : Store}
variable {es old new : List Entry}

theorem Keeps.refl (c : Call) (e : Entry) : c.Keeps e e := .inl rfl

theorem Frame.of_extends (he : s.Extends es s') (hs : s.Numbered) (hs' : s'.Numbered)
    (huser : ∀ e ∈ es, c.user? s = some e.user) : c.Frame s s' s.entries es where
  entries := he.entries
  lastId := he.lastId
  kept := List.forall₂_same.2 fun e _ => .refl c e
  ids := hs.ids_of_extends hs' he
  user := huser

theorem Frame.refl (c : Call) (s : Store) : c.Frame s s s.entries [] where
  entries := (List.append_nil _).symm
  lastId := rfl
  kept := List.forall₂_same.2 fun e _ => .refl c e
  ids := rfl
  user _ h := absurd h List.not_mem_nil

/-- A settlement puts another entry in the place of the one that it names. -/
theorem Frame.replace {e e' : Entry} (hnamed : c.settled? = some e.id)
    (hget : s.get? e.id = some e) (hp : e.status = .pending) (ho : e'.origin = e.origin) :
    c.Frame s (s.replace e') (s.replace e').entries [] where
  entries := (List.append_nil _).symm
  lastId := rfl
  kept := by
    refine List.forall₂_map_right_iff.2 (List.forall₂_same.2 fun x hx => ?_)
    split
    · next hid =>
      have hid := hid.trans (Entry.id_eq_of_origin ho)
      obtain rfl := Store.eq_of_id_eq hx (Store.get?_eq_some.1 hget).1 hid
      exact .inr ⟨hnamed, hp, ho⟩
    · exact .refl c x
  ids := rfl
  user _ h := absurd h List.not_mem_nil

theorem Plans.user?_of_entrust {d : Draft} (h : Plans t w c (.entrust d)) :
    c.user? w.store = some d.user := by
  cases h with
  | charge | withdraw | pay => rfl
  | refund stored _ => exact congrArg (Option.map Entry.user) stored

theorem Plans.user?_of_instant {d : Draft} {word : String} (h : Plans t w c (.instant d word)) :
    c.user? w.store = some d.user := by
  cases h <;> rfl

/-- Whatever a call comes to, it has its frame. -/
theorem Plans.frame (h : Plans t w c a) (he : a.Effect w o w') (hs : a.Sound w)
    (hn : w.store.Numbered) (hn' : w'.store.Numbered) :
    ∃ old new, c.Frame w.store w'.store old new := by
  cases he with
  | refused | stopped => exact ⟨_, _, .refl c w.store⟩
  | instant gains made =>
    refine ⟨_, _, .of_extends gains.store hn hn' ?_⟩
    simp only [List.mem_singleton, forall_eq]
    rw [made.user_eq]
    exact h.user?_of_instant
  | entrusted done =>
    cases done with
    | alone _ _ gains made =>
      refine ⟨_, _, .of_extends gains.store hn hn' ?_⟩
      simp only [List.mem_singleton, forall_eq]
      rw [made.user_eq]
      exact h.user?_of_entrust
    | paired _ _ gains made legMade =>
      refine ⟨_, _, .of_extends gains.store hn hn' ?_⟩
      simp only [List.mem_cons, List.not_mem_nil, or_false, forall_eq_or_imp, forall_eq]
      rw [made.user_eq, legMade.user_eq]
      exact ⟨h.user?_of_entrust, h.user?_of_entrust⟩
  | declined _ gains made =>
    refine ⟨_, _, .of_extends gains.store hn hn' ?_⟩
    simp only [List.mem_singleton, forall_eq]
    rw [made.user_eq]
    exact h.user?_of_entrust
  | settled _ origin _ _ store =>
    obtain ⟨hget, hp, -⟩ := hs
    cases h with
    | settle stored _ _ _ =>
      rw [store]
      refine ⟨_, _, .replace ?_ hget hp origin⟩
      rw [settled?, (Store.get?_eq_some.1 stored).2]

/-! ## Other users -/

/-- What a call may change under a settled entry lies with the user whom it is about. -/
theorem user?_of_settled? {e : Entry} (h : c.settled? = some e.id) (he : e ∈ s.entries) :
    c.user? s = some e.user := by
  cases c with
  | settle entry =>
    obtain rfl : entry = e.id := Option.some.inj h
    exact congrArg (Option.map Entry.user) (Store.get?_eq_some.2 ⟨he, rfl⟩)
  | charge | withdraw | withdrawForPayment | adminCredit | adminDebit | pay | refund => cases h

/-- The entries of other users are the same as before. -/
theorem Frame.under_eq (h : c.Frame s s' old new) {user : Nat} (hu : c.user? s ≠ some user) :
    s'.under (.user user) = s.under (.user user) := by
  have hkeys : ∀ e : Entry, .user user ∈ e.keys ↔ e.user = user := fun e => by
    simp [Entry.keys, Payment.settlementKeys, eq_comm]
  have hnew : new.filter (fun e => .user user ∈ e.keys) = [] := by
    refine List.filter_eq_nil_iff.2 fun e he => ?_
    rw [decide_eq_true_iff, hkeys]
    rintro rfl
    exact hu (h.user e he)
  have hold : ∀ es es' : List Entry, List.Forall₂ c.Keeps es es' → (∀ e ∈ es, e ∈ s.entries) →
      es'.filter (fun e => .user user ∈ e.keys) = es.filter (fun e => .user user ∈ e.keys) := by
    intro es es' hes hmem
    induction hes with
    | nil => rfl
    | @cons e e' es es' hkeeps _ ih =>
      have ih := ih fun x hx => hmem x (List.mem_cons_of_mem _ hx)
      rcases hkeeps with rfl | ⟨hnamed, -, ho⟩
      · rw [List.filter_cons, List.filter_cons, ih]
      · -- The settled entry is in neither view.
        have hne : e.user ≠ user := fun heq =>
          hu (heq ▸ user?_of_settled? hnamed (hmem e List.mem_cons_self))
        have hne' : e'.user ≠ user := Entry.user_eq_of_origin ho ▸ hne
        rw [List.filter_cons_of_neg (by simpa [hkeys] using hne'), ih,
          List.filter_cons_of_neg (by simpa [hkeys] using hne)]
  rw [Store.under, h.entries, List.filter_append, hnew, List.append_nil]
  exact hold _ _ h.kept fun _ he => he

end Call

/-! ## What is asked about a user -/

/-- Whether a request asks for entries under a key and for nothing else. -/
def Request.AsksUnder (k : LockKey) : Request → Prop
  | .query sel => sel.Pins k
  | _ => False

/-- A program that asks for entries under a key ends alike wherever these entries are the same. -/
theorem Program.Only.run_eq_of_under {α : Type} {p : Program α} {k : LockKey} {w w' : World}
    (h : p.Only (Request.AsksUnder k)) (hw : w.Calm) (hw' : w'.Calm)
    (hu : w'.store.under k = w.store.under k) : (p.run w').1 = (p.run w).1 := by
  induction p with
  | done o => rfl
  | ask r next ih =>
    cases r with
    | query sel =>
      rw [run_ask, run_ask, hw.answer_query, hw'.answer_query, Store.query_eq_of_under hu h.1]
      exact ih _ (h.2 _)
    | lock | user | order | get | insert | update | findReference | contains | verdict | clock
    | token => exact h.1.elim

namespace Inquiry

/-- The user whom something is asked about. -/
def user? : {α : Type} → Inquiry α → Option Nat
  | _, balance user | _, hasBalance user _ | _, ofUser user | _, ofUserWithStatus user _
  | _, ofUserOfKind user _ | _, ofUserBetween user _ _ | _, ofWallet user | _, ofOrders user
  | _, orderSummary user | _, walletSummary user => some user
  | _, entry _ | _, byReference _ | _, hasEntry _ | _, ofOrder _ | _, withStatus _ | _, ofKind _
  | _, between _ _ => none

theorem asksUnder_fetch {sel : Selection} {k : LockKey} (h : sel.Pins k) :
    (History.fetch sel).Only (Request.AsksUnder k) :=
  ((Only.request h).bind fun _ => .ofAttempt _).bind fun _ => .done _

theorem asksUnder_balance (user : Nat) :
    (Wallet.balance user).Only (Request.AsksUnder (.user user)) := by
  refine (Only.require _ _).bind fun _ => ?_
  refine Only.bind ((Only.request ?_).bind fun _ => .ofAttempt _) fun es => ?_
  · exact Wallet.pins_holdings user
  · cases Balance.ofEntries? es <;> exact .done _

/-- What is asked about a user is answered from the entries of the user. -/
theorem asksUnder {α : Type} {q : Inquiry α} {user : Nat} (h : q.user? = some user) :
    q.program.Only (Request.AsksUnder (.user user)) := by
  cases q with
  | balance user' =>
    obtain rfl : user' = user := Option.some.inj h
    exact asksUnder_balance user'
  | hasBalance user' amount =>
    obtain rfl : user' = user := Option.some.inj h
    exact (Only.ofAttempt _).bind fun _ => (asksUnder_balance user').bind fun _ => .done _
  | ofUser user' | ofUserWithStatus user' | ofUserOfKind user' | ofWallet user' | ofOrders user' =>
    obtain rfl : user' = user := Option.some.inj h
    exact (Only.require _ _).bind fun _ => asksUnder_fetch rfl
  | ofUserBetween user' =>
    obtain rfl : user' = user := Option.some.inj h
    exact (Only.require _ _).bind fun _ => (Only.require _ _).bind fun _ => asksUnder_fetch rfl
  | orderSummary user' =>
    obtain rfl : user' = user := Option.some.inj h
    have hlisting : (History.ofUser user').Only (Request.AsksUnder (.user user')) :=
      (Only.require _ _).bind fun _ => asksUnder_fetch rfl
    refine hlisting.bind fun es => ?_
    cases OrderSummary.of? es <;> exact .done _
  | walletSummary user' =>
    obtain rfl : user' = user := Option.some.inj h
    have hlisting : (History.ofWallet user').Only (Request.AsksUnder (.user user')) :=
      (Only.require _ _).bind fun _ => asksUnder_fetch rfl
    refine hlisting.bind fun es => ?_
    cases WalletSummary.of? es <;> exact .done _
  | entry | byReference | hasEntry | ofOrder | withStatus | ofKind | between => cases h

end Inquiry

/-! ## Ledgers -/

/-- Whatever call is made on a ledger and however it ends, the entries that were there are still
there as they were, but for the pending one that a settlement names, and new ones come behind them
under the next identifiers, all of the user whom the call is about. Whatever is asked about another
user is answered as before, and asking changes nothing. -/
theorem World.framed (t : Terms) (w : World) (es : List Event) :
    let v := (w.withStore .empty).after t es
    (∀ c : Call, (∃ old new, c.Frame v.store (c.run t v).2.store old new) ∧
      ∀ user, c.user? v.store ≠ some user → ∀ (α : Type) (q : Inquiry α), q.user? = some user →
        (q.program.run (c.run t v).2).1 = (q.program.run v).1) ∧
    ∀ (α : Type) (q : Inquiry α), (q.program.run v).2 = v := by
  intro v
  obtain ⟨hcalm, hwritten⟩ := written_after (t := t) (w.calm_withStore .empty) es
  have hpay := payable_after t w es
  refine ⟨fun c => ?_, fun α q => (q.vets.run hcalm).1⟩
  obtain ⟨hcalm', hwritten'⟩ := Event.written (t := t) (.call c) hcalm
  have hn := hwritten.numbered .empty
  obtain ⟨a, hplan, heffect⟩ := c.effect t hcalm hpay
  obtain ⟨old, new, hframe⟩ :=
    hplan.frame heffect (hplan.sound hpay) hn (hwritten'.numbered hn)
  refine ⟨⟨old, new, hframe⟩, fun user hu α q hq => ?_⟩
  exact (Inquiry.asksUnder hq).run_eq_of_under hcalm hcalm' (hframe.under_eq hu)

end Paybook
