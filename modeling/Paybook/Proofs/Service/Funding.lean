import Paybook.Proofs.Service.DailyLimits
import Paybook.Proofs.Service.Paying

/-! # When wallets are charged and withdrawn from

`Wallet.chargeDemands` and `Wallet.withdrawDemands` list what charging a wallet and withdrawing from
it demand. The bounds of amounts, the balance and the daily limits may be met with equality. While
the balance and the sum of the day are exact, the calls return exactly if all of it is so:
`World.funds_exactly`. -/

namespace Paybook

open Program Time

/-! ## Exact sums -/

namespace Store

variable {s : Store} {t : Terms} {now : Instant} {user : Nat} {kind : EntryKind} {a : Amount}

/-- Whether the balance of a user is the worth of the wallet. -/
def BalancesExactly (s : Store) (user : Nat) : Prop :=
  ∃ b, Balance.ofEntries? (s.query (Wallet.holdings user)) = some b ∧ b.value.toRat = s.worth user

/-- Whether a daily limit is held against the exact sum. -/
def TalliesExactly (s : Store) (t : Terms) (now : Instant) (user : Nat) (kind : EntryKind)
    (d : Decimal) : Prop :=
  ∃ sum, s.Tallies t now user kind d sum ∧
    sum.toRat = total (s.query (Wallet.doneWithin user kind (t.zone.dayAround now))) + d.toRat

theorem BalancesExactly.of_exact (h : Exact (s.query (Wallet.holdings user))) :
    s.BalancesExactly user := balance_of_exact h

theorem TalliesExactly.of_exactWith {today : Window} (htoday : t.zone.dayAround? now = some today)
    (h : ExactWith (s.query (Wallet.doneWithin user kind today)) a) :
    s.TalliesExactly t now user kind a.value := by
  obtain ⟨used, sum, hused, hsum, -, hv⟩ := h.sum?
  refine ⟨sum, ⟨today, used, htoday, hused, hsum⟩, ?_⟩
  rw [Zone.dayAround_of_dayAround? htoday, hv]

theorem BalancesExactly.exists_balance (h : s.BalancesExactly user) :
    ∃ b, Balance.ofEntries? (s.query (Wallet.holdings user)) = some b := h.imp fun _ hb => hb.1

theorem TalliesExactly.exists_sum {d : Decimal} (h : s.TalliesExactly t now user kind d) :
    ∃ sum, s.Tallies t now user kind d sum := h.imp fun _ hsum => hsum.1

theorem BalancesExactly.covers_iff (h : s.BalancesExactly user) :
    s.Covers user a ↔ a.value.toRat ≤ s.worth user := by
  obtain ⟨b, hb, hworth⟩ := h
  rw [Covers, hb, ← hworth, ← Decimal.le_iff_toRat]
  simp [Balance.covers]

theorem TalliesExactly.withinDay_iff (h : s.TalliesExactly t now user kind a.value)
    {limit : Decimal} (hlimit : Wallet.dailyLimit? t.settings.wallet kind = some limit) :
    s.WithinDay t now user kind a ↔
      total (s.query (Wallet.doneWithin user kind (t.zone.dayAround now))) + a.value.toRat ≤
        limit.toRat := by
  obtain ⟨sum, htallies, hsum⟩ := h
  rw [htallies.withinDay_iff, hlimit, ← hsum, ← Decimal.le_iff_toRat]
  simp

end Store

namespace Wallet

/-! ## The demands of charges and withdrawals -/

/-- What charging a wallet demands, in the order in which it is looked for. -/
def chargeDemands (t : Terms) (w : World) (user : Nat) (amount : Decimal) (method : Method) :
    List Demand :=
  [⟨user ≠ 0, .invalidArgument⟩,
   ⟨.zero < amount, .invalidArgument⟩,
   ⟨amount ≤ t.settings.wallet.maxCharge, .invalidArgument⟩,
   ⟨method = .card ∨ method = .bankTransfer ∨ method = .adminCredit, .invalidArgument⟩,
   ⟨∃ u, w.users.find? user = some u, .notFound⟩,
   ⟨total (w.store.query (doneWithin user .charge (t.zone.dayAround w.now))) + amount.toRat ≤
      t.settings.wallet.dailyCharge.toRat, .preconditionFailed⟩,
   ⟨method = .card → w.verdict .charges = .approved, .processingFailure⟩]

/-- What withdrawing from a wallet demands, in the order in which it is looked for. -/
def withdrawDemands (t : Terms) (w : World) (user : Nat) (amount : Decimal) (account : String) :
    List Demand :=
  [⟨user ≠ 0, .invalidArgument⟩,
   ⟨t.settings.wallet.minWithdrawal ≤ amount ∧ amount ≤ t.settings.wallet.maxWithdrawal,
    .invalidArgument⟩,
   ⟨Text.isAllBlank account = false, .invalidArgument⟩,
   ⟨∃ u, w.users.find? user = some u, .notFound⟩,
   ⟨amount.toRat ≤ w.store.worth user, .preconditionFailed⟩,
   ⟨total (w.store.query (doneWithin user .withdrawal (t.zone.dayAround w.now))) + amount.toRat ≤
      t.settings.wallet.dailyWithdrawal.toRat, .preconditionFailed⟩]

/-- Whether a call returns an entry that a draft for a wallet has become. -/
def Makes (w : World) (user : Nat) (amount : Decimal) (kind : EntryKind) (method : Method)
    (r : Outcome Entry) (w' : World) : Prop :=
  ∃ a text e, a.value = amount ∧ r = .returned e ∧
    (⟨user, none, a, kind, method, text⟩ : Draft).Done w e w'

variable {t : Terms} {w : World} {user : Nat} {amount : Decimal} {kind : EntryKind}
variable {method : Method}

theorem canCharge_iff : canCharge method = true ↔
    method = .card ∨ method = .bankTransfer ∨ method = .adminCredit := by
  cases method <;> simp [canCharge]

/-- A charge asks a gateway exactly if a card is charged. -/
theorem desk?_of_charge {d : Draft} (hkind : d.kind = .charge) {desk : CardDesk} :
    d.desk? = some desk ↔ d.method = .card ∧ desk = .charges := by
  unfold Draft.desk?
  rw [hkind]
  cases d.method <;> simp [eq_comm]

/-- Charging a wallet heeds its demands, and makes the charge when they are met. -/
theorem heeds_charge (hw : w.Calm) (description : String)
    (hday : .zero < amount → amount ≤ t.settings.wallet.maxCharge →
      w.store.TalliesExactly t w.now user .charge amount) :
    (charge t user amount method description).Heeds w (Makes w user amount .charge method)
      (chargeDemands t w user amount method) := by
  refine heeds_requireId fun _ => heeds_amount fun a ha => ?_
  subst ha
  refine heeds_require decide_eq_true_iff fun hmax => ?_
  refine heeds_require canCharge_iff fun hmethod => heeds_requireUser (heeds_acquire ?_)
  have hday := hday (Decimal.zero_lt_iff.2 a.positive) hmax
  refine .of_iff (heeds_requireWithinDay hw hday.exists_sum fun _ => ?_) (hday.withinDay_iff rfl)
  refine .of_iff (Draft.heeds_entrust hw (canCharge_iff.2 hmethod) fun e w' hdone => ?_)
    (by simp [desk?_of_charge])
  exact ⟨a, _, e, rfl, rfl, hdone⟩

/-- Withdrawing from a wallet heeds its demands, and makes the withdrawal when they are met. -/
theorem heeds_withdraw (hw : w.Calm) (hvalid : t.settings.fault? = none) (account reason : String)
    (hsums : t.settings.wallet.minWithdrawal ≤ amount →
      amount ≤ t.settings.wallet.maxWithdrawal →
      w.store.BalancesExactly user ∧ w.store.TalliesExactly t w.now user .withdrawal amount) :
    (withdraw t user amount account reason).Heeds w
      (Makes w user amount .withdrawal .bankTransfer)
      (withdrawDemands t w user amount account) := by
  have hpos : t.settings.wallet.minWithdrawal ≤ amount → .zero < amount := fun hle => by
    have hmin : t.settings.wallet.minWithdrawal.IsPositive :=
      Settings.isPositive_of_valid hvalid (x := ("min_withdrawal", _))
        (by simp [WalletLimits.named])
    rw [Decimal.le_iff_toRat] at hle
    rw [Decimal.isPositive_iff] at hmin
    rw [Decimal.zero_lt_iff, Decimal.isPositive_iff]
    exact hmin.trans_le hle
  refine heeds_requireId fun _ => .of_iff (.and (heeds_amount fun a ha => ?_))
    (and_iff_right_of_imp fun hrange => hpos hrange.1)
  subst ha
  refine heeds_require (by simp) fun hrange => heeds_require (by simp) fun _ => ?_
  obtain ⟨hbalance, hday⟩ := hsums hrange.1 hrange.2
  refine heeds_requireUser (heeds_acquire ?_)
  refine .of_iff (heeds_requireCovered hw hbalance.exists_balance fun _ => ?_) hbalance.covers_iff
  refine .of_iff (heeds_requireWithinDay hw hday.exists_sum fun _ => ?_) (hday.withinDay_iff rfl)
  -- The entry is booked and left as it is, and no gateway is asked.
  rw [← Program.bind_pure (book _)]
  refine (Draft.heeds_entrust (d := ⟨user, none, a, .withdrawal, .bankTransfer, _⟩) hw rfl
    fun e w' hdone => ?_).1 (by rintro _ ⟨⟩)
  exact ⟨a, _, e, rfl, rfl, hdone⟩

/-- What is returned is stored, and is what has become of its draft. -/
theorem Makes.stored {r : Outcome Entry} {w' : World} (h : Makes w user amount kind method r w')
    {e : Entry} (hr : r = .returned e) : w'.store.get? e.id = some e ∧ ∃ text a,
      (e.user, e.amount.value, e.kind, e.method, e.status) =
        (user, amount, kind, method, Draft.status ⟨user, none, a, kind, method, text⟩) := by
  obtain ⟨a, text, e', rfl, rfl, hdone⟩ := h
  obtain rfl : e' = e := Outcome.returned.inj hr
  obtain ⟨reference, hmade⟩ := hdone.made
  refine ⟨hdone.get?, text, a, ?_⟩
  rw [hmade.user_eq, hmade.amount_eq, hmade.kind_eq, hmade.method_eq, hmade.status_eq]

theorem Makes.returned {r : Outcome Entry} {w' : World} (h : Makes w user amount kind method r w') :
    ∃ e, r = .returned e := by
  obtain ⟨_, _, e, -, rfl, -⟩ := h
  exact ⟨e, rfl⟩

end Wallet

/-! ## Ledgers -/

/-- On every ledger with valid settings a wallet is charged exactly if all that a charge demands is
so, and is withdrawn from exactly if all that a withdrawal demands is so; otherwise the call fails
with the kind of the first demand that is not met. What is returned is stored: a charge completed,
unless a bank transfer is awaited, and a withdrawal pending. The sums that the amount is held
against must be exact if its size is allowed. -/
theorem World.funds_exactly (t : Terms) (w : World) (es : List Event) (user : Nat)
    (amount : Decimal) (hvalid : t.settings.fault? = none) :
    let v := (w.withStore .empty).after t es
    let limits := t.settings.wallet
    (∀ method description,
      (.zero < amount → amount ≤ limits.maxCharge →
        v.store.TalliesExactly t v.now user .charge amount) →
      let r := (Call.charge user amount method description).run t v
      r.1.Obeys (Wallet.chargeDemands t v user amount method) ∧
      ∀ e, r.1 = .returned e → r.2.store.get? e.id = some e ∧
        (e.user, e.amount.value, e.kind, e.method, e.status) = (user, amount, .charge, method,
          if method = .bankTransfer then .pending else .completed)) ∧
    ∀ account reason,
      (limits.minWithdrawal ≤ amount → amount ≤ limits.maxWithdrawal →
        v.store.BalancesExactly user ∧
          v.store.TalliesExactly t v.now user .withdrawal amount) →
      let r := (Call.withdraw user amount account reason).run t v
      r.1.Obeys (Wallet.withdrawDemands t v user amount account) ∧
      ∀ e, r.1 = .returned e → r.2.store.get? e.id = some e ∧
        (e.user, e.amount.value, e.kind, e.method, e.status) =
          (user, amount, .withdrawal, .bankTransfer, .pending) := by
  intro v limits
  have hcalm : v.Calm := (written_after (w.calm_withStore .empty) es).1
  constructor
  · intro method description hday r
    have hheeds : (Wallet.charge t user amount method description).Heeds v _ _ :=
      Wallet.heeds_charge hcalm description hday
    have hobeys : r.1.Obeys _ := hheeds.obeys fun _ _ h => h.returned
    refine ⟨hobeys, fun e he => ?_⟩
    obtain ⟨hget, text, a, hmade⟩ := (hheeds.yields (hobeys.1.1 ⟨e, he⟩)).stored he
    exact ⟨hget, hmade.trans (by cases method <;> rfl)⟩
  · intro account reason hsums r
    have hheeds := Wallet.heeds_withdraw hcalm hvalid account reason hsums
    have hobeys : r.1.Obeys _ := hheeds.obeys fun _ _ h => h.returned
    refine ⟨hobeys, fun e he => ?_⟩
    obtain ⟨hget, text, a, hmade⟩ := (hheeds.yields (hobeys.1.1 ⟨e, he⟩)).stored he
    exact ⟨hget, hmade⟩

/-- With ten put into a wallet, a charge of ninety uses up a daily limit of a hundred, and a
withdrawal of ten the wallet and a daily limit of ten. -/
theorem World.funds_exactly_to_the_limits :
    let t : Terms := { settings.wallet := {
      dailyCharge := .ofWord 100, minWithdrawal := .ofWord 10, maxWithdrawal := .ofWord 10,
      dailyWithdrawal := .ofWord 10 } }
    let v := ((World.opening {} 0 ⟨0, 0⟩ fun _ => 0).withStore .empty).after t
      [.user ⟨1, "Ada"⟩, .call (.adminCredit 1 (.ofWord 10) "gift" 1)]
    t.settings.fault? = none ∧
    v.store.TalliesExactly t v.now 1 .charge (.ofWord 90) ∧
    (∀ d ∈ Wallet.chargeDemands t v 1 (.ofWord 90) .bankTransfer, d.met) ∧
    (∃ e, ((Call.charge 1 (.ofWord 90) .bankTransfer "").run t v).1 = .returned e ∧
      e.status = .pending) ∧
    v.store.BalancesExactly 1 ∧ v.store.TalliesExactly t v.now 1 .withdrawal (.ofWord 10) ∧
    (∀ d ∈ Wallet.withdrawDemands t v 1 (.ofWord 10) "12345678", d.met) ∧
    ∃ e, ((Call.withdraw 1 (.ofWord 10) "12345678" "").run t v).1 = .returned e ∧
      e.status = .pending := by
  intro t v
  have hvalid : t.settings.fault? = none := by decide +kernel
  have hcharged : total (v.store.query (Wallet.doneWithin 1 .charge (t.zone.dayAround v.now))) =
      10 := by
    rw [total_of_words (l := [10]) (by decide +kernel)]
    rfl
  have hwithdrawn : total (v.store.query
      (Wallet.doneWithin 1 .withdrawal (t.zone.dayAround v.now))) = 0 := by
    rw [total_of_words (l := []) (by decide +kernel)]
    rfl
  have hworth : v.store.worth 1 = 10 := by
    have hput : total (v.store.query (Wallet.doneBy 1 .charge)) = 10 := by
      rw [total_of_words (l := [10]) (by decide +kernel)]
      rfl
    have htaken : v.store.query (Wallet.doneBy 1 .withdrawal) = [] := by decide +kernel
    rw [Store.worth, hput, htaken, total_nil, sub_zero]
  have hten : (Decimal.ofWord 10).toRat = 10 := Decimal.toRat_ofWord 10
  have hninety : (Decimal.ofWord 90).toRat = 90 := Decimal.toRat_ofWord 90
  have hhundred : (Decimal.ofWord 100).toRat = 100 := Decimal.toRat_ofWord 100
  have htoday : t.zone.dayAround? v.now = some (t.zone.dayAround v.now) := by decide +kernel
  let e (n : UInt64) (hn : (Decimal.ofWord n).IsPositive) : Entry :=
    .ofDraft 0 ⟨1, none, ⟨.ofWord n, hn⟩, .charge, .card, ""⟩ ⟨0, 0⟩
  have hcharges : v.store.TalliesExactly t v.now 1 .charge (.ofWord 90) :=
    .of_exactWith (a := (e 90 (by decide)).amount) htoday
      (exactWith_amount.2 (.of_words (l := [10, 90]) (by decide +kernel) (by decide)))
  have hwithdrawals : v.store.TalliesExactly t v.now 1 .withdrawal (.ofWord 10) :=
    .of_exactWith (a := (e 10 (by decide)).amount) htoday
      (exactWith_amount.2 (.of_words (l := [10]) (by decide +kernel) (by decide)))
  have hbalance : v.store.BalancesExactly 1 :=
    .of_exact (.of_words (l := [10]) (by decide +kernel) (by decide))
  have hchargeable : ∀ d ∈ Wallet.chargeDemands t v 1 (.ofWord 90) .bankTransfer, d.met := by
    simp only [Wallet.chargeDemands, List.forall_mem_cons]
    refine ⟨by decide, by decide, by decide +kernel, .inr (.inl trivial),
      ⟨⟨1, "Ada"⟩, by decide +kernel⟩, ?_, nofun, nofun⟩
    rw [hcharged, hninety]
    change 10 + 90 ≤ (Decimal.ofWord 100).toRat
    rw [hhundred]
    norm_num
  have hwithdrawable : ∀ d ∈ Wallet.withdrawDemands t v 1 (.ofWord 10) "12345678", d.met := by
    simp only [Wallet.withdrawDemands, List.forall_mem_cons]
    refine ⟨by decide, by decide +kernel, by decide +kernel, ⟨⟨1, "Ada"⟩, by decide +kernel⟩, ?_,
      ?_, nofun⟩
    · rw [hten, hworth]
    · rw [hwithdrawn, zero_add]
  obtain ⟨hobeys, hmade⟩ := (funds_exactly t _ _ 1 (.ofWord 90) hvalid).1 .bankTransfer ""
    fun _ _ => hcharges
  obtain ⟨hobeys', hmade'⟩ := (funds_exactly t _ _ 1 (.ofWord 10) hvalid).2 "12345678" ""
    fun _ _ => ⟨hbalance, hwithdrawals⟩
  obtain ⟨e, he⟩ := hobeys.1.2 hchargeable
  obtain ⟨e', he'⟩ := hobeys'.1.2 hwithdrawable
  refine ⟨hvalid, hcharges, hchargeable, ⟨e, he, ?_⟩, hbalance, hwithdrawals, hwithdrawable, e',
    he', ?_⟩
  · simpa using congrArg (fun p => p.2.2.2.2) (hmade e he).2
  · simpa using congrArg (fun p => p.2.2.2.2) (hmade' e' he').2

end Paybook
