import Paybook.Proofs.Service.Reachable

/-! # Daily limits

A daily limit bounds what is made and completed on one and the same day. It does not bound what is
made on a day and completed later: each completion is only checked against what was made on the day
of the completion, and what it completes is not part of that. `Store.KeepsDays` is the invariant of
whole histories. -/

namespace Paybook

open Program Time

/-! ## Entries of a day -/

/-- Whether the daily limits are meant for entries of this kind and method. -/
def EntryKind.isLimited : EntryKind → Method → Bool
  | .charge, .card | .charge, .bankTransfer | .withdrawal, .bankTransfer => true
  | _, _ => false

/-- Whether an entry that the limits are meant for is completed and was made for a user on the day
around an instant. -/
def Entry.isMadeOn (z : Zone) (day : Instant) (user : Nat) (kind : EntryKind) (e : Entry) : Bool :=
  (Wallet.doneWithin user kind (z.dayAround day)).selects e && kind.isLimited e.method

/-- Whether such an entry was completed on that day, too. -/
def Entry.isDoneOn (z : Zone) (day : Instant) (user : Nat) (kind : EntryKind) (e : Entry) : Bool :=
  e.isMadeOn z day user kind && e.processedAt.any (z.localDay · == z.localDay day)

/-- A day is the same around all of its instants. -/
theorem Time.Zone.dayAround_eq {z : Zone} {now day : Instant}
    (h : z.localDay now = z.localDay day) : z.dayAround now = z.dayAround day := by
  simp only [dayAround, h]

section Entries

variable {z : Zone} {day : Instant} {user : Nat} {kind : EntryKind} {e : Entry}

theorem Entry.isDoneOn_iff : e.isDoneOn z day user kind = true ↔
    (Wallet.doneWithin user kind (z.dayAround day)).selects e = true ∧
      kind.isLimited e.method = true ∧ ∃ p, e.processedAt = some p ∧
        z.localDay p = z.localDay day := by
  simp [isDoneOn, isMadeOn, Option.any_eq_true, and_assoc]

theorem Store.selects_doneWithin {window : Window} :
    (Wallet.doneWithin user kind window).selects e = true ↔
      e.user = user ∧ e.status = .completed ∧ e.kind = kind ∧
        window.start ≤ e.createdAt ∧ e.createdAt < window.stop := by
  simp [Selection.selects_iff, Wallet.doneWithin]

theorem Entry.isDoneOn_eq_false (h : e.kind.isLimited e.method = false ∨ e.status ≠ .completed) :
    e.isDoneOn z day user kind = false := by
  rw [Bool.eq_false_iff]
  intro hdone
  obtain ⟨hsel, hlimited, -⟩ := isDoneOn_iff.1 hdone
  obtain ⟨-, hcompleted, rfl, -⟩ := Store.selects_doneWithin.1 hsel
  rcases h with h | h
  · rw [h] at hlimited
    cases hlimited
  · exact h hcompleted

end Entries

namespace Store

variable {s s' : Store} {t : Terms} {now day : Instant} {user : Nat} {kind : EntryKind}
variable {e : Entry} {limit : Decimal}

/-- What was made and completed on a day stays within the limit together with an entry for which the
limit has left room on that day. -/
theorem WithinDay.total_le (h : s.WithinDay t now e.user e.kind e.amount)
    (hlimit : Wallet.dailyLimit? t.settings.wallet kind = some limit)
    (he : e.isDoneOn t.zone day user kind = true) (hnow : e.processedAt = some now)
    (hx : Exact (s.query (Wallet.doneWithin user kind (t.zone.dayAround now)) ++ [e])) :
    total (s.entries.filter (Entry.isDoneOn t.zone day user kind)) + e.amount.value.toRat ≤
      limit.toRat := by
  obtain ⟨hsel, -, p, hp, hday⟩ := Entry.isDoneOn_iff.1 he
  obtain ⟨huser, -, hkind, -⟩ := selects_doneWithin.1 hsel
  obtain rfl : now = p := Option.some.inj (hnow.symm.trans hp)
  rw [huser, hkind] at h
  obtain ⟨used, sum, hused, hsum, hle⟩ := h limit hlimit
  obtain ⟨used', sum', hused', hsum', -, hv⟩ := (exactWith_amount.2 hx).sum?
  obtain rfl : used = used' := Option.some.inj (hused.symm.trans hused')
  obtain rfl : sum = sum' := Option.some.inj (hsum.symm.trans hsum')
  have hsub : total (s.entries.filter (Entry.isDoneOn t.zone day user kind)) ≤
      total (s.query (Wallet.doneWithin user kind (t.zone.dayAround now))) := by
    refine total_le_of_sublist (List.monotone_filter_right _ fun x hx => ?_)
    rw [Zone.dayAround_eq hday]
    exact (Entry.isDoneOn_iff.1 hx).1
  rw [Decimal.le_iff_toRat, hv] at hle
  linarith

/-- Whether what was made and completed on one and the same day is within the limits, if the store
is exact. -/
def KeepsDays (s : Store) (t : Terms) : Prop :=
  Exact s.entries → ∀ user kind limit day,
    Wallet.dailyLimit? t.settings.wallet kind = some limit →
      total (s.entries.filter (Entry.isDoneOn t.zone day user kind)) ≤ limit.toRat

theorem KeepsDays.empty (hlimits : ∀ kind limit,
    Wallet.dailyLimit? t.settings.wallet kind = some limit → 0 ≤ limit.toRat) :
    Store.empty.KeepsDays t := fun _ _ kind limit _ hlimit => hlimits kind limit hlimit

/-- Entries that the limits are not meant for, or that are not completed, keep the days. -/
theorem KeepsDays.extends {es : List Entry} (h : s.KeepsDays t) (he : s.Extends es s')
    (hes : ∀ e ∈ es, e.kind.isLimited e.method = false ∨ e.status ≠ .completed) :
    s'.KeepsDays t := by
  intro hx user kind limit day hlimit
  have hnone : es.filter (Entry.isDoneOn t.zone day user kind) = [] :=
    List.filter_eq_nil_iff.2 fun e hmem => by simp [Entry.isDoneOn_eq_false (hes e hmem)]
  rw [he.entries, List.filter_append, hnone, List.append_nil]
  rw [he.entries] at hx
  exact h (hx.sublist (List.sublist_append_left _ _)) user kind limit day hlimit

/-- A new entry for which the limit has left room keeps the days, completed or not. -/
theorem KeepsDays.extends_of_within {d : Draft} {st : Status} {reference : Option String}
    (h : s.KeepsDays t) (he : s.Extends [e] s') (hmade : e.Made d now st reference)
    (hwithin : s.WithinDay t now d.user d.kind d.amount) : s'.KeepsDays t := by
  by_cases hst : st = .completed
  case neg =>
    refine h.extends he fun x hx => .inr ?_
    rw [List.mem_singleton.1 hx, hmade.status_eq]
    exact hst
  have hnow : e.processedAt = some now := by rw [hmade.processedAt_eq, hst]; rfl
  rw [← hmade.user_eq, ← hmade.kind_eq, ← hmade.amount_eq] at hwithin
  intro hx user kind limit day hlimit
  rw [he.entries] at hx ⊢
  rw [List.filter_append, total_append]
  cases hdone : e.isDoneOn t.zone day user kind with
  | false =>
    rw [List.filter_singleton, hdone, cond_false, total_nil, add_zero]
    exact h (hx.sublist (List.sublist_append_left _ _)) user kind limit day hlimit
  | true =>
    rw [List.filter_singleton, hdone, cond_true, total_cons, total_nil, add_zero]
    refine hwithin.total_le hlimit hdone hnow (hx.sublist ?_)
    exact List.Sublist.append List.filter_sublist (List.Sublist.refl _)

/-- Bringing a pending entry to its end keeps the days, if its completion was within the limit of
the day on which it is completed. -/
theorem KeepsDays.replace {old : Entry} (h : s.KeepsDays t) (hget : s.get? e.id = some old)
    (hp : old.status = .pending) (ho : e.origin = old.origin) (hnow : e.processedAt = some now)
    (hwithin : e.status = .completed → s.WithinDay t now e.user e.kind e.amount) :
    (s.replace e).KeepsDays t := by
  intro hx user kind limit day hlimit
  have hx : Exact s.entries := hx.of_origins (origins_replace hget ho).symm
  have hold : old.isDoneOn t.zone day user kind = false :=
    Entry.isDoneOn_eq_false (.inr (by simp [hp]))
  cases hdone : e.isDoneOn t.zone day user kind with
  | false =>
    rw [filter_replace hget hold hdone]
    exact h hx user kind limit day hlimit
  | true =>
    rw [total_filter, sum_replaced _ hget, if_neg (by simp [hold]), if_pos hdone, sub_zero,
      ← total_filter]
    have hcompleted := (selects_doneWithin.1 (Entry.isDoneOn_iff.1 hdone).1).2.1
    refine (hwithin hcompleted).total_le hlimit hdone hnow ?_
    -- The entry is not among those found, but was in the store before.
    have hmem := (get?_eq_some.1 hget).1
    have hfound :
        Exact (s.query (Wallet.doneWithin user kind (t.zone.dayAround now)) ++ [old]) := by
      refine hx.of_mem ?_ ?_
      · intro x hx
        rcases List.mem_append.1 hx with hx | hx
        · exact (List.mem_filter.1 hx).1
        · rw [List.mem_singleton.1 hx]
          exact hmem
      · rw [total_append, total_cons, total_nil, add_zero]
        exact total_filter_add_le hmem (Selection.not_selects_of_status rfl (by simp [hp]))
    refine hfound.of_origins ?_
    rw [List.map_append, List.map_append, List.map_singleton, List.map_singleton, ho]

end Store

/-! ## Effects -/

theorem EntryKind.isLimited_of_ofOrder {kind : EntryKind} (h : kind ∈ EntryKind.ofOrder)
    (method : Method) : kind.isLimited method = false := by
  cases kind with
  | charge | withdrawal => simp [ofOrder] at h
  | payment | refund => rfl

theorem EntryKind.isLimited_wallet (kind : EntryKind) : kind.isLimited .wallet = false := by
  cases kind <;> rfl

theorem EntryKind.isLimited_adminCredit (kind : EntryKind) :
    kind.isLimited .adminCredit = false := by
  cases kind <;> rfl

/-- What a call does keeps the days. -/
theorem Call.Plans.keepsDays {t : Terms} {w w' : World} {c : Call} {a : Action}
    {o : Outcome Entry} (h : Call.Plans t w c a) (he : a.Effect w o w') (hs : a.Sound w)
    (hk : w.store.KeepsDays t) : w'.store.KeepsDays t := by
  cases he with
  | refused | stopped => exact hk
  | instant gains made =>
    refine hk.extends gains.store fun e hmem => .inl ?_
    rw [List.mem_singleton.1 hmem, made.method_eq]
    cases h with
    | withdrawForPayment => exact EntryKind.isLimited_wallet _
    | adminCredit | adminDebit => exact EntryKind.isLimited_adminCredit _
  | entrusted done =>
    cases done with
    | alone method approved gains made =>
      cases h with
      | charge _ within => exact hk.extends_of_within gains.store made within
      | withdraw =>
        refine hk.extends gains.store fun e hmem => .inr ?_
        rw [List.mem_singleton.1 hmem, made.status_eq]
        nofun
      | pay | refund =>
        refine hk.extends gains.store fun e hmem => .inl ?_
        rw [List.mem_singleton.1 hmem, made.kind_eq]
        rfl
    | paired method legKind gains made legMade =>
      refine hk.extends gains.store fun e hmem => .inl ?_
      rcases List.mem_cons.1 hmem with rfl | hmem
      · rw [made.kind_eq]
        exact EntryKind.isLimited_of_ofOrder (EntryKind.mem_ofOrder_of_leg? legKind) _
      · rw [List.mem_singleton.1 hmem, legMade.method_eq]
        exact EntryKind.isLimited_wallet _
  | declined _ gains made =>
    refine hk.extends gains.store fun e hmem => .inr ?_
    rw [List.mem_singleton.1 hmem, made.status_eq]
    simp
  | settled kept origin final processed store =>
    rw [store]
    refine hk.replace (Entry.id_eq_of_origin origin ▸ hs.1) hs.2.1 origin processed fun hc => ?_
    cases h with
    | settle stored pending _ within =>
      rw [Entry.user_eq_of_origin origin, Entry.kind_eq_of_origin origin,
        Entry.amount_eq_of_origin origin]
      exact within (final.symm.trans hc)

/-! ## Whole histories -/

/-- The limits of valid settings are positive. -/
theorem Settings.isPositive_of_valid {s : Settings} (h : s.fault? = none) {x : String × Decimal}
    (hx : x ∈ s.wallet.named) : x.2.IsPositive := by
  have hnamed : ∀ x ∈ s.wallet.named, x.2.IsPositive := by
    unfold fault? at h
    split at h
    · cases h
    · next hfind => simpa using List.find?_eq_none.1 hfind
  exact hnamed x hx

theorem Settings.dailyLimit_pos {s : Settings} {kind : EntryKind} {limit : Decimal}
    (h : s.fault? = none) (hlimit : Wallet.dailyLimit? s.wallet kind = some limit) :
    0 < limit.toRat := by
  rw [← Decimal.isPositive_iff]
  cases kind with
  | charge =>
    cases hlimit
    exact isPositive_of_valid h (x := ("daily_charge_limit", _)) (by simp [WalletLimits.named])
  | withdrawal =>
    cases hlimit
    exact isPositive_of_valid h (x := ("daily_withdrawal_limit", _))
      (by simp [WalletLimits.named])
  | payment | refund => cases hlimit

namespace World

/-- What a user has had made and completed on one and the same day stays within the daily limit. -/
theorem done_within_day (t : Terms) (w : World) (es : List Event) (user : Nat) (kind : EntryKind)
    (limit : Decimal) (day : Instant) (hvalid : t.settings.fault? = none)
    (hx : Exact ((w.withStore .empty).after t es).store.entries)
    (hlimit : Wallet.dailyLimit? t.settings.wallet kind = some limit) :
    total (((w.withStore .empty).after t es).store.entries.filter
      (Entry.isDoneOn t.zone day user kind)) ≤ limit.toRat := by
  have hkeeps : ((w.withStore .empty).after t es).store.KeepsDays t := by
    refine after_induction (P := (Store.KeepsDays · t)) (A := fun _ => True) w ?_ ?_
      fun _ _ => trivial
    · exact .empty fun kind limit h => (Settings.dailyLimit_pos hvalid h).le
    · intro w w' c a o _ hpay _ hplan heffect
      exact hplan.keepsDays heffect (hplan.sound hpay)
  exact hkeeps hx user kind limit day hlimit

/-- Two withdrawals that use up the limit between them can both be asked for, but only one can be
completed on the same day. -/
theorem done_within_day_refusing :
    let t : Terms := { settings.wallet := {
      minWithdrawal := .ofWord 1, maxWithdrawal := .ofWord 10, dailyWithdrawal := .ofWord 10 } }
    let v := ((World.opening {} 0 ⟨0, 0⟩ fun _ => 0).withStore .empty).after t
      [.user ⟨1, "Ada"⟩, .call (.adminCredit 1 (.ofWord 20) "gift" 1),
        .call (.withdraw 1 (.ofWord 10) "12345678" ""),
        .call (.withdraw 1 (.ofWord 10) "12345678" ""), .call (.settle 2 .completed none none),
        .call (.settle 3 .completed none none)]
    t.settings.fault? = none ∧ Exact v.store.entries ∧
      total (v.store.entries.filter (Entry.isDoneOn t.zone ⟨0, 0⟩ 1 .withdrawal)) ≤
        (Decimal.ofWord 10).toRat ∧
      v.store.entries.map Entry.status = [.completed, .completed, .pending] := by
  intro t v
  have hx : Exact v.store.entries := .of_words (l := [20, 10, 10]) (by decide +kernel) (by decide)
  have hvalid : t.settings.fault? = none := by decide +kernel
  exact ⟨hvalid, hx, done_within_day t _ _ 1 .withdrawal _ ⟨0, 0⟩ hvalid hx rfl, by decide +kernel⟩

/-- Withdrawals of one day that are completed on the next one may exceed the limit, both that of the
day on which they were made and that of the day on which they are completed. -/
theorem daily_limit_exceeded :
    let t : Terms := { settings.wallet := {
      minWithdrawal := .ofWord 1, maxWithdrawal := .ofWord 10, dailyWithdrawal := .ofWord 10 } }
    let v := ((World.opening {} 0 ⟨0, 0⟩ fun _ => 0).withStore .empty).after t
      [.user ⟨1, "Ada"⟩, .call (.adminCredit 1 (.ofWord 20) "gift" 1),
        .call (.withdraw 1 (.ofWord 10) "12345678" ""),
        .call (.withdraw 1 (.ofWord 10) "12345678" ""), .time ⟨86400, 0⟩,
        .call (.settle 2 .completed none none), .call (.settle 3 .completed none none)]
    let made := v.store.entries.filter (Entry.isMadeOn t.zone ⟨0, 0⟩ 1 .withdrawal)
    t.settings.fault? = none ∧ Exact v.store.entries ∧ total made = 20 ∧
      made.map Entry.processedAt = [some ⟨86400, 0⟩, some ⟨86400, 0⟩] ∧
      ¬total made ≤ (Decimal.ofWord 10).toRat := by
  intro t v made
  have hmade : total made = 20 := by
    rw [total_of_words (l := [10, 10]) (by decide +kernel)]
    rfl
  refine ⟨by decide +kernel, .of_words (l := [20, 10, 10]) (by decide +kernel) (by decide), hmade,
    by decide +kernel, ?_⟩
  have hlimit : (Decimal.ofWord 10).toRat = 10 := by simp [Decimal.toRat]
  rw [hmade, hlimit]
  norm_num

end World

end Paybook
