import Paybook.Proofs.Service.Reachable

/-! # Exact decisions

A sum of decimals is rounded when it does not fit at the scale of its parts, and amounts may be of
any size and scale. While the holdings of a user are exact, the balance is the worth of the wallet
and an amount is covered exactly if the worth covers it; while the entries of a day and an amount
are exact together, the daily limit is decided as it is for exact sums: `World.decides_exactly`.
Without these bounds all of it may go wrong, as in `World.decides_rounded`. -/

namespace Paybook

open Program Time

/-! ## Decisions -/

/-- Whether a check lets a call go on if something holds, and refuses it otherwise. -/
def Program.Decides (p : Program Unit) (w : World) (P : Prop) : Prop :=
  (P → (p.run w).1 = .returned ()) ∧
    (¬P → ∃ text, (p.run w).1 = .failed (.preconditionFailed text))

theorem Program.decides_require {c : Bool} {text : String} {w : World} {P : Prop}
    (h : c = true ↔ P) : (require c (.preconditionFailed text)).Decides w P := by
  constructor
  · intro hP
    rw [h.2 hP]
    rfl
  · intro hP
    rw [Bool.eq_false_iff.2 (mt h.1 hP)]
    exact ⟨text, rfl⟩

namespace Wallet

variable {w : World} {t : Terms} {user : Nat} {kind : EntryKind} {a : Amount}

/-- What is left of a check of a daily limit when the entries of the day are known. -/
def requireRoom (es : List Entry) (kind : EntryKind) (a : Amount) (limit : Decimal) :
    Program Unit := do
  let used ← inRange (Decimal.sum? (es.map fun e => e.amount.value))
  let total ← inRange (used.add? a.value)
  require (total ≤ limit) (.preconditionFailed
    s!"Daily {kind} limit of {limit} exceeded: {used} already processed today")

theorem run_requireWithinDay (hw : w.Calm) {limit : Decimal} {today : Window}
    (hlimit : dailyLimit? t.settings.wallet kind = some limit)
    (htoday : t.zone.dayAround? w.now = some today) :
    (requireWithinDay t user kind a).run w =
      (requireRoom (w.store.query (doneWithin user kind today)) kind a limit).run w := by
  have hday : (inRange (t.zone.dayAround? w.now)).run w = (.returned today, w) := by
    rw [htoday]
    rfl
  unfold requireWithinDay
  rw [hlimit]
  refine (run_bind_of_run (a := w.now) rfl).trans ?_
  exact (run_bind_of_run hday).trans (run_bind_of_run (run_select hw _))

/-- Whether exact holdings cover an amount is decided by the worth of the wallet. -/
theorem decides_requireCovered (hw : w.Calm) (hx : Exact (w.store.query (holdings user))) :
    (requireCovered user a).Decides w (a.value.toRat ≤ w.store.worth user) := by
  obtain ⟨b, hb, hv⟩ := Store.balance_of_exact hx
  have hholds : (holds user).run w = (.returned b, w) := by
    rw [run_holds hw, hb]
    rfl
  rw [Decides, requireCovered, run_bind_of_run hholds]
  refine decides_require ?_
  rw [← hv, ← Decimal.le_iff_toRat]
  exact decide_eq_true_iff

/-- Whether a daily limit leaves room for an amount is decided by the exact sum. -/
theorem decides_requireWithinDay (hw : w.Calm) {today : Window}
    (htoday : t.zone.dayAround? w.now = some today)
    (hx : ExactWith (w.store.query (doneWithin user kind today)) a) :
    (requireWithinDay t user kind a).Decides w
      (∀ limit, dailyLimit? t.settings.wallet kind = some limit →
        total (w.store.query (doneWithin user kind today)) + a.value.toRat ≤ limit.toRat) := by
  cases hlimit : dailyLimit? t.settings.wallet kind with
  | none =>
    unfold Decides requireWithinDay
    rw [hlimit]
    exact ⟨fun _ => rfl, fun h => absurd nofun h⟩
  | some limit =>
    obtain ⟨used, sum, hused, hsum, -, hv⟩ := hx.sum?
    have hroom : sum ≤ limit ↔ ∀ l, some limit = some l →
        total (w.store.query (doneWithin user kind today)) + a.value.toRat ≤ l.toRat := by
      rw [Decimal.le_iff_toRat, hv]
      simp
    rw [Decides, run_requireWithinDay hw hlimit htoday, requireRoom, hused,
      run_bind_of_run (a := used) rfl, hsum, run_bind_of_run (a := sum) rfl]
    exact decides_require (decide_eq_true_iff.trans hroom)

end Wallet

/-! ## Ledgers -/

namespace World

/-- In every world that a ledger passes: the balance of a user with exact holdings is the exact sum
of the completed charges less that of the completed withdrawals, an amount is covered exactly if
this sum covers it, and a daily limit that is exact together with the amount leaves room for it
exactly if the exact sum of the completed entries of the day and of the amount is within it. -/
theorem decides_exactly (t : Terms) (w : World) (es : List Event) {v : World}
    (hv : v ∈ (w.withStore .empty).passes t es) (user : Nat) :
    (Exact (v.store.query (Wallet.holdings user)) →
      (user ≠ 0 → ∃ b, ((Wallet.balance user).run v).1 = .returned b ∧
        b.value.toRat = v.store.worth user) ∧
      ∀ a, (Wallet.requireCovered user a).Decides v (a.value.toRat ≤ v.store.worth user)) ∧
    ∀ kind a today, t.zone.dayAround? v.now = some today →
      ExactWith (v.store.query (Wallet.doneWithin user kind today)) a →
      (Wallet.requireWithinDay t user kind a).Decides v
        (∀ limit, Wallet.dailyLimit? t.settings.wallet kind = some limit →
          total (v.store.query (Wallet.doneWithin user kind today)) + a.value.toRat ≤
            limit.toRat) := by
  have hcalm := (written_of_mem_passes (w.calm_withStore .empty) hv).1
  constructor
  · intro hx
    refine ⟨fun huser => ?_, fun a => Wallet.decides_requireCovered hcalm hx⟩
    obtain ⟨b, hb, hworth⟩ := Store.balance_of_exact hx
    refine ⟨b, ?_, hworth⟩
    have hid : (requireId user "User").run v = (.returned (), v) := by
      rw [requireId, decide_eq_true huser]
      rfl
    rw [Wallet.balance, run_bind_of_run hid, run_holds hcalm, hb]
    rfl
  · intro kind a today htoday hx
    exact Wallet.decides_requireWithinDay hcalm htoday hx

/-- With ten put into a wallet and four spent, five are covered and a charge of ninety stays within
a limit of a hundred. -/
theorem decides_exactly_after_spending :
    let t : Terms := { settings.wallet := { dailyCharge := .ofWord 100 } }
    let v := ((World.opening {} 0 ⟨0, 0⟩ fun _ => 0).withStore .empty).after t
      [.user ⟨1, "Ada"⟩, .call (.charge 1 (.ofWord 10) .adminCredit ""),
        .call (.withdrawForPayment 1 (.ofWord 4) "")]
    let found := v.store.query (Wallet.doneWithin 1 .charge (t.zone.dayAround v.now))
    (∃ b, ((Wallet.balance 1).run v).1 = .returned b ∧ b.value.toRat = v.store.worth 1) ∧
      (Wallet.requireCovered 1 ⟨.ofWord 5, by decide⟩).Decides v (5 ≤ v.store.worth 1) ∧
      (Wallet.requireWithinDay t 1 .charge ⟨.ofWord 90, by decide⟩).Decides v
        (∀ limit, Wallet.dailyLimit? t.settings.wallet .charge = some limit →
          total found + 90 ≤ limit.toRat) := by
  intro t v found
  obtain ⟨hholdings, hday⟩ := decides_exactly t _ _ (after_mem_passes t _ _) 1 (v := v)
  obtain ⟨hbalance, hcovered⟩ :=
    hholdings (.of_words (l := [10, 4]) (by decide +kernel) (by decide))
  refine ⟨hbalance (by decide), ?_, ?_⟩
  · have h := hcovered ⟨.ofWord 5, by decide⟩
    rwa [Decimal.toRat_ofWord] at h
  · let e : Entry := .ofDraft 0 ⟨1, none, ⟨.ofWord 90, by decide⟩, .charge, .card, ""⟩ ⟨0, 0⟩
    have hx : ExactWith found e.amount :=
      exactWith_amount.2 (.of_words (l := [10, 90]) (by decide +kernel) (by decide))
    have h := hday .charge e.amount (t.zone.dayAround v.now) (by decide +kernel) hx
    have hninety : e.amount.value.toRat = 90 := Decimal.toRat_ofWord 90
    rwa [hninety] at h

/-- Of fifty thousand less one and two amounts of half a unit of the twenty-fourth place, the two
are lost one after the other when the balance is added up. So it is not the sum of the charges, an
amount that is not more than the sum is refused, and a further charge of one is let go although it
exceeds the daily limit of fifty thousand. -/
theorem decides_rounded :
    let half : Decimal := { negative := false, magnitude := 5, scale := 25 }
    let v := ((World.opening {} 0 ⟨0, 0⟩ fun _ => 0).withStore .empty).after {}
      [.user ⟨1, "Ada"⟩, .call (.adminCredit 1 (.ofWord 49999) "gift" 1),
        .call (.adminCredit 1 half "gift" 1), .call (.adminCredit 1 half "gift" 1)]
    let found := v.store.query (Wallet.doneWithin 1 .charge (Zone.utc.dayAround v.now))
    let a : Amount :=
      ⟨{ negative := false, magnitude := 49999 * 10 ^ 24 + 1, scale := 24 }, by decide⟩
    (∃ b, ((Wallet.balance 1).run v).1 = .returned b ∧ b.value.toRat ≠ v.store.worth 1) ∧
      (a.value.toRat ≤ v.store.worth 1 ∧ ((Wallet.requireCovered 1 a).run v).1 ≠ .returned ()) ∧
      Wallet.dailyLimit? {} .charge = some (.ofWord 50000) ∧
      ¬total found + 1 ≤ (Decimal.ofWord 50000).toRat ∧
      ((Wallet.requireWithinDay {} 1 .charge ⟨.ofWord 1, by decide⟩).run v).1 = .returned () := by
  intro half v found a
  have hsum : ∀ es : List Entry, es.map (fun e => e.amount.value) = [.ofWord 49999, half, half] →
      total es = 49999 + 1 / 10 ^ 24 := by
    intro es hes
    have hwhole : (Decimal.ofWord 49999).toRat = 49999 := by simp
    have hhalf : half.toRat = 5 / 10 ^ 25 := rfl
    rw [total_of_values hes, List.map_cons, List.map_cons, List.map_singleton, hwhole, hhalf]
    norm_num
  have hfound : total found = 49999 + 1 / 10 ^ 24 := hsum _ (by decide +kernel)
  have hworth : v.store.worth 1 = 49999 + 1 / 10 ^ 24 := by
    have hcharged := hsum (v.store.query (Wallet.doneBy 1 .charge)) (by decide +kernel)
    have hnothing : v.store.query (Wallet.doneBy 1 .withdrawal) = [] := by decide +kernel
    rw [Store.worth, hcharged, hnothing, total_nil, sub_zero]
  let b : Balance := ⟨{ negative := false, magnitude := 49999 * 10 ^ 24, scale := 24 }⟩
  refine ⟨⟨b, by decide +kernel, ?_⟩, ⟨?_, by decide +kernel⟩, by decide, ?_, by decide +kernel⟩
  · rw [hworth]
    norm_num [b, Decimal.toRat, Decimal.mantissa]
  · rw [hworth]
    norm_num [a, Decimal.toRat, Decimal.mantissa]
  · have hlimit : (Decimal.ofWord 50000).toRat = 50000 := by simp
    rw [hfound, hlimit]
    norm_num

end World

end Paybook
