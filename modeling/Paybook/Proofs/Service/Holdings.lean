import Paybook.Proofs.Entry.Summary
import Paybook.Proofs.Service.Calm
import Paybook.Proofs.Store.Worth
import Paybook.Service.Call

/-! # Two ways to a balance

What a wallet holds is folded from the completed charges and withdrawals by ascending identifiers,
with a balance on the way that may be negative. The summary of a listing adds up either kind on its
own and subtracts once. For exact entries both are the exact sum, in whatever order the entries are
listed: `World.summary_agrees_with_holdings`. -/

namespace Paybook

open Program

/-! ## Stores of given entries -/

namespace Store

/-- Entries of distinct identifiers, by ascending ones. -/
def ascendingOf (es : List Entry) : List Entry := es.mergeSort fun a b => a.id ≤ b.id

theorem ascendingOf_perm (es : List Entry) : (ascendingOf es).Perm es := List.mergeSort_perm es _

theorem pairwise_ascendingOf {es : List Entry} (h : (es.map Entry.id).Nodup) :
    ((ascendingOf es).map Entry.id).Pairwise (· < ·) := by
  have hsorted : (ascendingOf es).Pairwise fun a b => decide (a.id ≤ b.id) = true := by
    refine List.pairwise_mergeSort ?_ ?_ es
    · simp only [decide_eq_true_eq]
      exact fun a b c => Nat.le_trans
    · simp only [Bool.or_eq_true, decide_eq_true_eq]
      exact fun a b => Nat.le_total a.id b.id
  have hdistinct : ((ascendingOf es).map Entry.id).Nodup :=
    ((ascendingOf_perm es).map Entry.id).nodup_iff.2 h
  rw [List.pairwise_map]
  refine (hsorted.and (List.pairwise_map.1 hdistinct)).imp ?_
  rintro a b ⟨hle, hne⟩
  exact Nat.lt_of_le_of_ne (of_decide_eq_true hle) hne

/-- The store of some entries of distinct identifiers. -/
def ofEntries (es : List Entry) (h : (es.map Entry.id).Nodup) : Store where
  entries := ascendingOf es
  lastId := (es.map Entry.id).max?.getD 0
  ascending := pairwise_ascendingOf h
  id_le _ he := List.le_max?_getD_of_mem (List.mem_map_of_mem ((ascendingOf_perm es).mem_iff.1 he))

variable {s : Store} {user : Nat}

/-- The completed entries of a kind in a store where all entries are those of one user. -/
theorem query_doneBy_of_user (h : ∀ e ∈ s.entries, e.user = user) (kind : EntryKind) :
    s.query (Wallet.doneBy user kind) = completedOf kind s.entries := by
  refine List.filter_congr fun e he => ?_
  rw [Bool.eq_iff_iff, selects_doneBy, Bool.and_eq_true, beq_iff_eq, Entry.isCompleted, beq_iff_eq]
  constructor
  · rintro ⟨⟨-, hcompleted⟩, hkind⟩
    exact ⟨hkind, hcompleted⟩
  · rintro ⟨hkind, hcompleted⟩
    exact ⟨⟨h e he, hcompleted⟩, hkind⟩

/-- The worth of the wallet of the only user. -/
theorem worth_of_user (h : ∀ e ∈ s.entries, e.user = user) : s.worth user =
    total (completedOf .charge s.entries) - total (completedOf .withdrawal s.entries) := by
  rw [worth, query_doneBy_of_user h, query_doneBy_of_user h]

end Store

/-! ## The two ways -/

/-- Take exact entries of one user with distinct identifiers. In the world whose store they are, the
wallet holds the exact sum of the completed charges less that of the completed withdrawals. In
whatever order they are listed, their summary is one and the same: its balance has the value that
the wallet holds, and it has the exact sums and the numbers of the completed charges and
withdrawals. -/
theorem World.summary_agrees_with_holdings (w : World) {es : List Entry} {user : Nat}
    (hx : Exact es) (hids : (es.map Entry.id).Nodup) (huser : ∀ e ∈ es, e.user = user) :
    let v := w.withStore (.ofEntries es hids)
    ∃ b m, (Wallet.holds user).run v = (.returned b, v) ∧
      b.value.toRat = total (completedOf .charge es) - total (completedOf .withdrawal es) ∧
      (∀ listed, listed.Perm es → WalletSummary.of? listed = some m) ∧
      m.balance.value.toRat = b.value.toRat ∧
      m.charged.toRat = total (completedOf .charge es) ∧
      m.withdrawn.toRat = total (completedOf .withdrawal es) ∧
      m.charges = (completedOf .charge es).length ∧
      m.withdrawals = (completedOf .withdrawal es).length := by
  intro v
  have hperm : v.store.entries.Perm es := Store.ascendingOf_perm es
  obtain ⟨b, hb, hworth⟩ := Store.balance_exact (hx.of_perm hperm) user
  rw [Store.worth_of_user fun e he => huser e (hperm.mem_iff.1 he),
    total_perm (completedOf_perm .charge hperm),
    total_perm (completedOf_perm .withdrawal hperm)] at hworth
  obtain ⟨m, hm, hcharged, hwithdrawn, hbalance⟩ := hx.walletSummary
  refine ⟨b, m, ?_, hworth, fun listed hp => ?_, ?_, hcharged, hwithdrawn, ?_⟩
  · rw [run_holds (w.calm_withStore _), hb]
    rfl
  · rw [(hx.of_perm hp).walletSummary_perm hp, hm]
  · rw [hbalance, hcharged, hwithdrawn, hworth]
  · exact WalletSummary.counts_of_of? hm

/-- Four were spent before ten and a half were put in, so that folding passes through a negative
balance; five more are awaited. The three entries are listed in two orders. -/
theorem World.summary_agrees_with_holdings_spent_first :
    let wallet (id : Nat) (kind : EntryKind) (a : Amount) : Entry :=
      .ofDraft id ⟨1, none, a, kind, .adminCredit, ""⟩ ⟨0, 0⟩
    let spent := (wallet 1 .withdrawal ⟨.ofWord 4, by decide⟩).finished .completed ⟨1, 0⟩
    let put := (wallet 2 .charge ⟨{ negative := false, magnitude := 105, scale := 1 },
      by decide⟩).finished .completed ⟨1, 0⟩
    let awaited := wallet 3 .charge ⟨.ofWord 5, by decide⟩
    let es := [put, spent, awaited]
    let w := World.opening {} 0 ⟨0, 0⟩ fun _ => 0
    Exact es ∧ ∃ hids : (es.map Entry.id).Nodup, ∃ b m,
      ((Wallet.holds 1).run (w.withStore (.ofEntries es hids))).1 = .returned b ∧
      b.value.toRat = 13 / 2 ∧ m.balance.value.toRat = 13 / 2 ∧ m.charges = 1 ∧
      m.withdrawals = 1 ∧ WalletSummary.of? [put, spent, awaited] = some m ∧
      WalletSummary.of? [awaited, spent, put] = some m := by
  intro wallet spent put awaited es w
  have hspent : spent.amount.value.toRat = 4 := Decimal.toRat_ofWord 4
  have hawaited : awaited.amount.value.toRat = 5 := Decimal.toRat_ofWord 5
  have hput : put.amount.value.toRat = 21 / 2 := by
    change ((105 : Int) : ℚ) / 10 ^ 1 = 21 / 2
    norm_num
  have hx : Exact es := by
    refine ⟨1, by decide, by decide, ?_⟩
    rw [total_cons, total_cons, total_cons, total_nil, hput, hspent, hawaited]
    norm_num
  have hids : (es.map Entry.id).Nodup := by decide
  have huser : ∀ e ∈ es, e.user = 1 := by decide
  obtain ⟨b, m, hrun, hb, hany, hm, -, -, hcharges, hwithdrawals⟩ :=
    w.summary_agrees_with_holdings hx hids huser
  have hworth : b.value.toRat = 13 / 2 := by
    change b.value.toRat = total [put] - total [spent] at hb
    rw [hb, total_cons, total_cons, total_nil, hput, hspent]
    norm_num
  exact ⟨hx, hids, b, m, congrArg Prod.fst hrun, hworth, hm.trans hworth, hcharges, hwithdrawals,
    hany es (.refl es), hany _ (List.reverse_perm es)⟩

end Paybook
