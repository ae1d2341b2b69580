import Paybook.Proofs.Service.Bookings
import Paybook.Proofs.Service.Locality

/-! # Calls that change places

A call comes to the same action after another call that shares no key with it, and an action does
the same in both worlds but for the identifiers and random numbers that come next: `Call.twins`. So
two such calls may be made in either order: `World.commutes`. -/

namespace Paybook

open Program Time

variable {R : Nat → Nat → Prop} {w w' w₁ w₁' : World} {t : Terms} {c c' : Call} {a : Action}
variable {o o' : Outcome Entry} {tag tag' : String → String} {k : LockKey}

/-! ## The same action in two worlds -/

/-- Whether two calls end alike: with the same entry, renamed, or with the same failure. -/
inductive Outcome.Alike (R : Nat → Nat → Prop) : Outcome Entry → Outcome Entry → Prop
  | returned {e e' : Entry} (renamed : e.Renamed R e') : Alike R (.returned e) (.returned e')
  | failed (f : Failure) : Alike R (.failed f) (.failed f)
  | overflowed : Alike R .overflowed .overflowed

/-- Whether identifiers up to the last one of two stores are kept, and the next ones of the one are
exchanged for the next ones of the other. -/
structure Store.Exchanges (R : Nat → Nat → Prop) (s s' : Store) (new : Nat) : Prop where
  old : ∀ id, id ≤ s.lastId → id ≤ s'.lastId → R id id
  new : ∀ i < new, R (s.lastId + 1 + i) (s'.lastId + 1 + i)

/-- Entries that two stores have in common stay what they are. -/
theorem Store.Exchanges.common {s s' : Store} {new : Nat} (h : s.Exchanges R s' new) {e : Entry}
    (he : e ∈ s.entries) (he' : e ∈ s'.entries) : R e.id e.id :=
  h.old _ (s.id_le e he) (s'.id_le e he')

theorem Store.Exchanges.common_under {s s' : Store} {new : Nat} (h : s.Exchanges R s' new)
    (hu : s'.under k = s.under k) : ∀ e ∈ s.under k, R e.id e.id := fun _ he =>
  h.common (mem_under.1 he).1 (mem_under.1 (hu ▸ he)).1

theorem Store.Exchanges.renamed_under {s s' : Store} {new : Nat} (h : s.Exchanges R s' new)
    (hu : s'.under k = s.under k) : RenamedAll R (s.under k) (s'.under k) := by
  rw [hu]
  exact .refl (h.common_under hu)

namespace Action

/-- What an action adds under other identifiers is the same, renamed. -/
theorem renamed_entries (a : Action) {id id' : Nat} (now : Instant)
    (htag : ∀ word, Requoted R (tag word) (tag' word))
    (hids : ∀ i < (a.entries id now tag).length, R (id + i) (id' + i)) :
    RenamedAll R (a.entries id now tag) (a.entries id' now tag') := by
  cases a with
  | instant d word =>
    exact .cons (d.renamed_completed now (hids 0 Nat.one_pos) (htag word)) .nil
  | entrust d => exact d.renamed_entries now htag hids
  | refuse | stop | settle => exact .nil

/-- An action that ends in two worlds ends alike, adds as many entries to both, and leaves the same
under every key, renamed, where it found the same. -/
structure Twins (R : Nat → Nat → Prop) (w w' : World) (o o' : Outcome Entry) (w₁ w₁' : World) :
    Prop where
  outcome : o.Alike R o'
  lastId : w₁'.store.lastId + w.store.lastId = w₁.store.lastId + w'.store.lastId
  under : ∀ k, w'.store.under k = w.store.under k →
    RenamedAll R (w₁.store.under k) (w₁'.store.under k)

theorem Does.twins (h : a.Does w tag o w₁) (h' : a.Does w' tag' o' w₁') (hnow : w'.now = w.now)
    (htag : ∀ word, Requoted R (tag word) (tag' word))
    (hR : w.store.Exchanges R w'.store (w₁.store.lastId - w.store.lastId)) :
    Twins R w w' o o' w₁ w₁' := by
  cases h with
  | refused =>
    cases h' with
    | refused => exact ⟨.failed _, Nat.add_comm _ _, fun _ => hR.renamed_under⟩
    | booked exactly => cases exactly
  | stopped =>
    cases h' with
    | stopped => exact ⟨.overflowed, Nat.add_comm _ _, fun _ => hR.renamed_under⟩
    | booked exactly => cases exactly
  | booked exactly gains =>
    cases h' with
    | refused | stopped | settled => cases exactly
    | booked exactly' gains' =>
      have hcount := gains.store.lastId
      have hcount' := gains'.store.lastId
      have hnew : RenamedAll R (a.entries (w.store.lastId + 1) w.now tag)
          (a.entries (w'.store.lastId + 1) w.now tag') :=
        a.renamed_entries w.now htag fun i hi => hR.new i (by rw [exactly] at hi; omega)
      rw [exactly, ← hnow, exactly'] at hnew
      refine ⟨?_, ?_, fun k hu => ?_⟩
      · cases hnew with
        | cons he _ => exact .returned he
      · have := hnew.length_eq
        omega
      · rw [gains.store.under, gains'.store.under]
        refine List.rel_append (hR.renamed_under hu) (hnew.filter fun e e' he => ?_)
        rw [he.keys_eq]
  | @settled e status reference notes _ stored kept store =>
    cases h' with
    | booked exactly => cases exactly
    | settled stored' kept' store' =>
      have horigin := Payment.origin_concluded e status reference notes
      have hid := fun now tag => Entry.id_eq_of_origin (horigin now tag)
      have he := hR.common (Store.get?_eq_some.1 stored).1 (Store.get?_eq_some.1 stored').1
      have hsame := Payment.renamed_concluded he status reference notes w.now htag
      rw [hnow] at store' ⊢
      refine ⟨.returned hsame, ?_, fun k hu => ?_⟩
      · rw [store, store']
        exact Nat.add_comm _ _
      · rw [store, store', Store.under_replace_eq (hid _ _ ▸ stored) (horigin _ _),
          Store.under_replace_eq (hid _ _ ▸ stored') (horigin _ _), hu]
        exact .replaced (hR.common_under hu) hsame ((hid _ _).trans (hid _ _).symm)

end Action

/-! ## The same call in two worlds -/

namespace Call

theorem Plans.action_desk? (h : Plans t w c a) (hdesk : c.desk? = none) : a.desk? = none := by
  cases a with
  | entrust d => exact h.desk?_eq.symm.trans hdesk
  | refuse | stop | instant | settle => rfl

/-- A call that asks no gateway does the same in worlds that look the same to it. -/
theorem twins (t : Terms) (hw : w.Calm) (hpay : w.store.Payable) (hdesk : c.desk? = none)
    (hs : c.Sees w w')
    (hR : w.store.Exchanges R w'.store ((c.run t w).2.store.lastId - w.store.lastId)) :
    Action.Twins R w w' (c.run t w).1 (c.run t w').1 (c.run t w).2 (c.run t w').2 := by
  obtain ⟨a, hplan, hleads⟩ := c.comes t hw
  have hsound := hplan.sound hpay
  have hsound' := hplan.sound_of_sees hs hsound
  obtain ⟨token, hdoes⟩ := Action.does hw hsound (hplan.action_desk? hdesk)
  obtain ⟨token', hdoes'⟩ := Action.does hs.calm hsound' (hplan.action_desk? hdesk)
  rw [← (hleads w (.refl c hw)).run_eq] at hdoes
  rw [← (hleads w' hs).run_eq] at hdoes'
  exact hdoes.twins hdoes' hs.now (fun word => .tagged word token token') hR

theorem payable_run (t : Terms) (hw : w.Calm) (hpay : w.store.Payable) (c : Call) :
    (c.run t w).2.store.Payable := by
  obtain ⟨a, hplan, heffect⟩ := c.effect t hw hpay
  exact heffect.payable (hplan.sound hpay) hpay

end Call

/-! ## What is asked about a user -/

section Views

variable {user : Nat} (h : RenamedAll R (w.store.under (.user user)) (w'.store.under (.user user)))

include h

theorem Store.renamed_query {sel : Selection} (hsel : sel.user = some user) :
    RenamedAll R (w.store.query sel) (w'.store.query sel) := by
  have hp : sel.Pins (.user user) := hsel
  rw [query_eq_filter_under _ hp, query_eq_filter_under _ hp]
  exact h.filter fun e e' he => he.selects_eq sel

theorem Store.renamed_listing {sel : Selection} (hsel : sel.user = some user) :
    RenamedAll R (History.newestFirst (w.store.query sel))
      (History.newestFirst (w'.store.query sel)) :=
  (renamed_query h hsel).newestFirst (w.store.ascending.sublist (List.filter_sublist.map _))
    (w'.store.ascending.sublist (List.filter_sublist.map _))

theorem Wallet.run_balance_eq (hw : w.Calm) (hw' : w'.Calm) :
    ((balance user).run w').1 = ((balance user).run w).1 := by
  refine run_require_bind_eq ?_
  rw [run_holds hw, run_holds hw', (Store.renamed_query h rfl).balance_eq]
  exact run_inRange_eq _

theorem History.run_orderSummary_eq (hw : w.Calm) (hw' : w'.Calm) :
    ((orderSummary user).run w').1 = ((orderSummary user).run w).1 := by
  rw [orderSummary, ofUser, LawfulMonad.bind_assoc]
  refine run_require_bind_eq ?_
  rw [run_bind_of_run (run_fetch hw _), run_bind_of_run (run_fetch hw' _),
    (Store.renamed_listing h rfl).orderSummary_eq]
  exact run_inRange_eq _

theorem History.run_walletSummary_eq (hw : w.Calm) (hw' : w'.Calm) :
    ((walletSummary user).run w').1 = ((walletSummary user).run w).1 := by
  rw [walletSummary, ofWallet, LawfulMonad.bind_assoc]
  refine run_require_bind_eq ?_
  rw [run_bind_of_run (run_fetch hw _), run_bind_of_run (run_fetch hw' _),
    (Store.renamed_listing h rfl).walletSummary_eq]
  exact run_inRange_eq _

end Views

/-! ## Either order -/

/-- What becomes of an identifier when two calls change places that come behind the last identifier
that was given before. The first one gives the identifiers up to `first`, and the second one, when
it comes first, those up to `second`. -/
def exchanged (last first second id : Nat) : Nat :=
  if id ≤ last then id
  else if id ≤ first then second + (id - last)
  else last + (id - first)

section Exchanged

variable {last first second id i : Nat}

theorem exchanged_of_le (h : id ≤ last) : exchanged last first second id = id := if_pos h

theorem exchanged_first (h : i < first - last) :
    exchanged last first second (last + 1 + i) = second + 1 + i := by
  rw [exchanged, if_neg (by omega), if_pos (by omega)]
  omega

theorem exchanged_second (h : last ≤ first) :
    exchanged last first second (first + 1 + i) = last + 1 + i := by
  rw [exchanged, if_neg (by omega), if_neg (by omega)]
  omega

end Exchanged

namespace World

/-- Two calls about different users and orders may be made on a ledger in either order, if neither
asks a gateway and the entries that they name are there before. Each ends alike in the one order, as
`first` or `second`, and in the other, as `second'` or `first'`. Afterwards the entries of every
user are the same, and so is what is said of the user. Nothing but the new identifiers is exchanged,
with the random numbers and what quotes either. -/
theorem commutes (t : Terms) (w : World) (es : List Event) {c c' : Call} (hdesk : c.desk? = none)
    (hdesk' : c'.desk? = none) :
    let v := (w.withStore .empty).after t es
    c.keys v.store ≠ [] → c'.keys v.store ≠ [] → (c.keys v.store).Disjoint (c'.keys v.store) →
    let first := c.run t v
    let second := c'.run t first.2
    let first' := c'.run t v
    let second' := c.run t first'.2
    let R := fun id id' =>
      id' = exchanged v.store.lastId first.2.store.lastId first'.2.store.lastId id
    first.1.Alike R second'.1 ∧ second.1.Alike R first'.1 ∧
    second'.2.store.lastId = second.2.store.lastId ∧
    ∀ user,
      RenamedAll R (second.2.store.under (.user user)) (second'.2.store.under (.user user)) ∧
      ((Wallet.balance user).run second'.2).1 = ((Wallet.balance user).run second.2).1 ∧
      ((History.orderSummary user).run second'.2).1 =
        ((History.orderSummary user).run second.2).1 ∧
      ((History.walletSummary user).run second'.2).1 =
        ((History.walletSummary user).run second.2).1 := by
  intro v hkeys hkeys' hdisjoint first second first' second' R
  have hw : v.Calm := (written_after (t := t) (w.calm_withStore .empty) es).1
  have hpay : v.store.Payable := payable_after t w es
  have hcalm : ∀ {x : World} (c : Call), x.Calm → (c.run t x).2.Calm := fun c hx =>
    (Event.written (t := t) (.call c) hx).1
  have hpay₁ : first.2.store.Payable := c.payable_run t hw hpay
  have hpay₂ : first'.2.store.Payable := c'.payable_run t hw hpay
  have hsees : c.Sees v first'.2 := c.sees_run t hw hpay hkeys hdisjoint
  have hsees' : c'.Sees v first.2 := c'.sees_run t hw hpay hkeys' hdisjoint.symm
  have hgrows : v.store.lastId ≤ first.2.store.lastId :=
    (precedes_of_mem_worlds hw (start_mem_worlds (c.program t) v)).2.lastId
  -- Each call is made once on the ledger and once behind the other call.
  have htwins : Action.Twins R v first'.2 first.1 second'.1 first.2 second'.2 :=
    c.twins t hw hpay hdesk hsees
      ⟨fun _ hid _ => (exchanged_of_le hid).symm, fun _ hi => (exchanged_first hi).symm⟩
  have htwins' : Action.Twins R first.2 v second.1 first'.1 second.2 first'.2 :=
    c'.twins t (hcalm c hw) hpay₁ hdesk' (hsees'.symm hw)
      ⟨fun _ _ hid => (exchanged_of_le hid).symm, fun _ _ => (exchanged_second hgrows).symm⟩
  refine ⟨htwins.outcome, htwins'.outcome, ?_, fun user => ?_⟩
  · have := htwins.lastId
    have := htwins'.lastId
    omega
  · have hunder : RenamedAll R (second.2.store.under (.user user))
        (second'.2.store.under (.user user)) := by
      by_cases hk : .user user ∈ c.keys v.store
      · have hk' : .user user ∉ c'.keys v.store := hdisjoint hk
        have hsecond : second.2.store.under (.user user) = first.2.store.under (.user user) :=
          c'.under_run t (hcalm c hw) hpay₁ (hsees'.keys_eq ▸ hk')
        rw [hsecond]
        exact htwins.under _ (c'.under_run t hw hpay hk')
      · have hsecond' : second'.2.store.under (.user user) = first'.2.store.under (.user user) :=
          c.under_run t (hcalm c' hw) hpay₂ (hsees.keys_eq ▸ hk)
        rw [hsecond']
        exact htwins'.under _ (c.under_run t hw hpay hk).symm
    have hw₁ : second.2.Calm := hcalm c' (hcalm c hw)
    have hw₂ : second'.2.Calm := hcalm c (hcalm c' hw)
    exact ⟨hunder, Wallet.run_balance_eq hunder hw₁ hw₂,
      History.run_orderSummary_eq hunder hw₁ hw₂, History.run_walletSummary_eq hunder hw₁ hw₂⟩

/-- The refund of a payment by wallet, which books two entries, and a credit to somebody else. -/
theorem commutes_refund_and_credit :
    let v := ((World.opening {} 0 ⟨0, 0⟩ fun _ => 0).withStore .empty).after {}
      [.user ⟨1, "Ada"⟩, .user ⟨2, "Grace"⟩, .order ⟨7, 1, .ofWord 4, "PENDING"⟩,
        .call (.charge 1 (.ofWord 10) .adminCredit ""), .call (.pay 1 7 .wallet)]
    let refund := Call.refund 2 ""
    let credit := Call.adminCredit 2 (.ofWord 5) "gift" 9
    refund.keys v.store = [.user 1, .order 7] ∧ credit.keys v.store = [.user 2] ∧
    ∀ user, ((Wallet.balance user).run (refund.run {} (credit.run {} v).2).2).1 =
      ((Wallet.balance user).run (credit.run {} (refund.run {} v).2).2).1 := by
  intro v refund credit
  have hrefund : refund.keys v.store = [.user 1, .order 7] := by decide +kernel
  have hcredit : credit.keys v.store = [.user 2] := rfl
  have hdisjoint : (refund.keys v.store).Disjoint (credit.keys v.store) := by
    rw [hrefund, hcredit]
    simp
  refine ⟨hrefund, hcredit, fun user => ?_⟩
  have hdesk : refund.desk? = none := rfl
  have hdesk' : credit.desk? = none := rfl
  obtain ⟨-, -, -, hviews⟩ := commutes {} _ _ hdesk hdesk' (by rw [hrefund]; simp)
    (by rw [hcredit]; simp) hdisjoint
  exact (hviews user).2.1

end World

end Paybook
