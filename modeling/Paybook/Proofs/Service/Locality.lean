import Paybook.Proofs.Service.Outcomes

/-! # What calls leave alone besides their keys

A call writes only entries under the keys of its user and its order, `Call.under_run`, and no
request changes the directories or the clock. So whatever a call looks at is still the same after
another call that shares no key with it: `Call.sees_run`. -/

namespace Paybook

open Program Time

variable {w w' : World} {t : Terms} {c c' : Call} {a : Action} {k : LockKey}

/-! ## What no request changes -/

theorem World.surroundings_answer (w : World) (r : Request) : (w.answer r).2.users = w.users ∧
    (w.answer r).2.orders = w.orders ∧ (w.answer r).2.now = w.now := by
  cases r with
  | verdict desk => cases desk <;> exact ⟨rfl, rfl, rfl⟩
  | lock | user | order | get | query => exact ⟨rfl, rfl, rfl⟩
  | insert | update | findReference | contains | clock | token => exact ⟨rfl, rfl, rfl⟩

theorem Program.surroundings_run {α : Type} (p : Program α) (w : World) :
    (p.run w).2.users = w.users ∧ (p.run w).2.orders = w.orders ∧ (p.run w).2.now = w.now := by
  induction p generalizing w with
  | done o => exact ⟨rfl, rfl, rfl⟩
  | ask r next ih =>
    obtain ⟨husers, horders, hnow⟩ := ih (w.answer r).1 (w.answer r).2
    obtain ⟨husers', horders', hnow'⟩ := w.surroundings_answer r
    exact ⟨husers.trans husers', horders.trans horders', hnow.trans hnow'⟩

/-! ## Entries under other keys -/

theorem Store.Extends.under {s s' : Store} {es : List Entry} (h : s.Extends es s') (k : LockKey) :
    s'.under k = s.under k ++ es.filter fun e => k ∈ e.keys := by
  rw [Store.under, h.entries, List.filter_append, Store.under]

theorem Store.Extends.under_eq {s s' : Store} {es : List Entry} (h : s.Extends es s')
    (hk : ∀ e ∈ es, k ∉ e.keys) : s'.under k = s.under k := by
  have hnone : (es.filter fun e => k ∈ e.keys) = [] := by simpa [List.filter_eq_nil_iff] using hk
  rw [h.under, hnone, List.append_nil]

theorem Entry.Made.keys_eq {e : Entry} {d : Draft} {now : Instant} {st : Status}
    {reference : Option String} (h : e.Made d now st reference) : e.keys = d.keys :=
  keys_eq_of_origin h.origin

namespace Action

/-- The keys of what an action books or settles. -/
def keys : Action → List LockKey
  | refuse _ | stop => []
  | instant d _ | entrust d => d.keys
  | settle e _ _ _ => e.keys

theorem Effect.under_eq {o : Outcome Entry} (h : a.Effect w o w') (hs : a.Sound w)
    (hk : k ∉ a.keys) : w'.store.under k = w.store.under k := by
  cases h with
  | refused | stopped => rfl
  | instant gains made =>
    refine gains.store.under_eq ?_
    simp only [List.mem_singleton, forall_eq, made.keys_eq]
    exact hk
  | entrusted done =>
    cases done with
    | alone _ _ gains made =>
      refine gains.store.under_eq ?_
      simp only [List.mem_singleton, forall_eq, made.keys_eq]
      exact hk
    | paired _ _ gains made legMade =>
      refine gains.store.under_eq ?_
      simp only [List.mem_cons, List.not_mem_nil, or_false, forall_eq_or_imp, forall_eq,
        made.keys_eq, legMade.keys_eq]
      -- The entry of the wallet has the key of the user alone.
      refine ⟨hk, fun hleg => hk ?_⟩
      rw [List.mem_singleton.1 hleg]
      exact List.mem_cons_self
  | declined _ gains made =>
    refine gains.store.under_eq ?_
    simp only [List.mem_singleton, forall_eq, made.keys_eq]
    exact hk
  | settled _ origin _ _ store =>
    rw [store]
    refine Store.under_replace (Entry.id_eq_of_origin origin ▸ hs.1) origin ?_
    rw [Entry.keys_eq_of_origin origin]
    exact hk

end Action

namespace Call

theorem Plans.keys_subset (h : Plans t w c a) : a.keys ⊆ c.keys w.store := by
  cases h with
  | refuse | stop => exact List.nil_subset _
  | charge | withdraw | withdrawForPayment | adminCredit | adminDebit => exact List.Subset.refl _
  | pay => simp [Action.keys, Draft.keys, keys]
  | refund stored _ forOrder =>
    rw [keys, stored, Option.elim_some, Action.keys, Draft.keys, Entry.keys,
      Payment.settlementKeys, forOrder]
    exact List.Subset.refl _
  | settle stored =>
    rw [keys, stored]
    exact List.Subset.refl _

/-- A call leaves the entries under other keys as they are. -/
theorem under_run (t : Terms) (hw : w.Calm) (hpay : w.store.Payable) (hk : k ∉ c.keys w.store) :
    (c.run t w).2.store.under k = w.store.under k := by
  obtain ⟨a, hplan, heffect⟩ := c.effect t hw hpay
  exact heffect.under_eq (hplan.sound hpay) fun h => hk (hplan.keys_subset h)

/-- Whether the store is ready for what a call comes to depends on what the call looks at alone. -/
theorem Plans.sound_of_sees (h : Plans t w c a) (hs : c.Sees w w') (hsound : a.Sound w) :
    a.Sound w' := by
  cases h with
  | refuse | stop => trivial
  | charge | withdraw | refund => exact hsound
  | withdrawForPayment | adminCredit | adminDebit => exact hsound
  | @pay user order _ _ _ usable covered =>
    refine ⟨usable, fun hmethod => ?_⟩
    have hkey : LockKey.user user ∈ [.order order, .user user] :=
      List.mem_cons_of_mem _ List.mem_cons_self
    rw [Store.Covers, hs.done _ rfl _ hkey (Wallet.pins_holdings user)]
    exact covered hmethod
  | settle stored pending final =>
    have hid := (Store.get?_eq_some.1 stored).2
    refine ⟨?_, pending, final⟩
    rw [hid, hs.named _ rfl]
    exact stored

/-- Worlds with the same entries under the keys of a call look the same to it. -/
theorem Sees.of_under (hw' : w'.Calm) (hkeys : c.keys w.store ≠ [])
    (hsame : w'.users = w.users ∧ w'.orders = w.orders ∧ w'.now = w.now)
    (hu : ∀ k ∈ c.keys w.store, w'.store.under k = w.store.under k) : c.Sees w w' := by
  have hfound : ∀ id, c.named? = some id →
      c.keys w.store = (w.store.get? id).elim [] Entry.keys := by
    intro id hid
    cases c with
    | refund | settle => cases hid; rfl
    | charge | withdraw | withdrawForPayment | adminCredit | adminDebit | pay => cases hid
  have hnamed : ∀ id, c.named? = some id → w'.store.get? id = w.store.get? id := by
    intro id hid
    cases hget : w.store.get? id with
    | none =>
      have hnone := hfound id hid
      rw [hget] at hnone
      exact absurd hnone hkeys
    | some e =>
      have hkey : .user e.user ∈ c.keys w.store := by
        rw [hfound id hid, hget]
        exact e.user_mem_keys
      exact Store.get?_eq_of_under (hu _ hkey) e.user_mem_keys hget
  exact ⟨hw', hsame.2.2, hsame.1, hsame.2.1, hnamed,
    fun sel _ k hk hp => Store.query_eq_of_under (hu k hk) hp⟩

/-- A call cannot tell that another one was made that shares no key with it. -/
theorem sees_run (t : Terms) (hw : w.Calm) (hpay : w.store.Payable) (hkeys : c.keys w.store ≠ [])
    (hdisjoint : (c.keys w.store).Disjoint (c'.keys w.store)) : c.Sees w (c'.run t w).2 := by
  refine .of_under (Event.written (t := t) (.call c') hw).1 hkeys (surroundings_run _ w) ?_
  exact fun k hk => under_run t hw hpay (hdisjoint hk)

end Call

end Paybook
