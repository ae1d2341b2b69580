import Paybook.Proofs.Entry.Exact
import Paybook.Proofs.Store.Writes

/-! # What a wallet is worth

The worth of a wallet is the exact sum of its completed charges less that of its completed
withdrawals. In an exact store it is the balance that calls derive, so that what the balance covers
the worth does: `Covers.le_worth`. A store is `Solvent` when, if exact, no wallet in it is worth
less than nothing; writes keep it so, since a withdrawal is only completed when it is covered. -/

namespace Paybook

/-- The completed entries of a user of a kind. -/
def Wallet.doneBy (user : Nat) (kind : EntryKind) : Selection :=
  { user := some user, status := some .completed, kinds := some [kind] }

/-- What an entry has moved into the wallet of a user. -/
def Entry.movesTo (e : Entry) (user : Nat) : ℚ :=
  if e.user = user ∧ e.status = .completed then e.moved else 0

theorem Entry.movesTo_of_not_completed {e : Entry} (h : e.status ≠ .completed) (user : Nat) :
    e.movesTo user = 0 := if_neg fun h' => h h'.2

namespace Store

variable {s s' : Store} {e old : Entry} {user : Nat}

/-- What the wallet of a user is worth. -/
def worth (s : Store) (user : Nat) : ℚ :=
  total (s.query (Wallet.doneBy user .charge)) - total (s.query (Wallet.doneBy user .withdrawal))

theorem selects_doneBy {kind : EntryKind} :
    (Wallet.doneBy user kind).selects e = true ↔
      (e.user = user ∧ e.status = .completed) ∧ e.kind = kind := by
  simp [Selection.selects_iff, Wallet.doneBy, and_assoc]

theorem selects_holdings :
    (Wallet.holdings user).selects e = true ↔
      (e.user = user ∧ e.status = .completed) ∧ (e.kind = .charge ∨ e.kind = .withdrawal) := by
  simp [Selection.selects_iff, Wallet.holdings, EntryKind.ofWallet, and_assoc]

/-- The worth of a wallet adds up over the entries. -/
theorem worth_eq_sum (s : Store) (user : Nat) :
    s.worth user = (s.entries.map fun e => e.movesTo user).sum := by
  rw [worth, query, query]
  induction s.entries with
  | nil => simp
  | cons e es ih =>
    rw [List.map_cons, List.sum_cons, ← ih, Entry.movesTo]
    by_cases h : e.user = user ∧ e.status = .completed
    · cases hk : e.kind <;> simp [selects_doneBy, h, hk, Entry.moved, EntryKind.signed] <;> ring
    · simp [selects_doneBy, h]

/-- What the holdings of a user move comes to the worth of the wallet. -/
theorem sum_moved_holdings (s : Store) (user : Nat) :
    ((s.query (Wallet.holdings user)).map Entry.moved).sum = s.worth user := by
  rw [worth_eq_sum, query]
  induction s.entries with
  | nil => rfl
  | cons e es ih =>
    rw [List.map_cons, List.sum_cons, ← ih, Entry.movesTo]
    by_cases h : e.user = user ∧ e.status = .completed
    · cases hk : e.kind <;> simp [selects_holdings, h, hk, Entry.moved, EntryKind.signed]
    · simp [selects_holdings, h]

/-! ## Balances of exact stores -/

/-- A store was exact if it is so after it has grown. -/
theorem Grows.exact (h : s.Grows s') (hx : Exact s'.entries) : Exact s.entries := by
  have ho := List.prefix_iff_eq_take.1 h.origins
  rw [← List.map_take] at ho
  exact (hx.sublist (List.take_sublist _ _)).of_origins ho

/-- The balance that calls derive from exact holdings is the worth of the wallet. -/
theorem balance_of_exact (hx : Exact (s.query (Wallet.holdings user))) :
    ∃ b, Balance.ofEntries? (s.query (Wallet.holdings user)) = some b ∧
      b.value.toRat = s.worth user := by
  obtain ⟨b, hb, hv⟩ := Balance.ofEntries?_exact hx
  exact ⟨b, hb, hv.trans (s.sum_moved_holdings user)⟩

theorem balance_exact (hx : Exact s.entries) (user : Nat) :
    ∃ b, Balance.ofEntries? (s.query (Wallet.holdings user)) = some b ∧
      b.value.toRat = s.worth user :=
  balance_of_exact (hx.sublist List.filter_sublist)

theorem Covers.le_worth {a : Amount} (h : s.Covers user a) (hx : Exact s.entries) :
    a.value.toRat ≤ s.worth user := by
  obtain ⟨b, hb, hc⟩ := h
  obtain ⟨b', hb', hv⟩ := balance_exact hx user
  rw [hb] at hb'
  cases hb'
  rw [← hv]
  exact Decimal.le_iff_toRat.1 (of_decide_eq_true hc)

/-! ## Worth under writes -/

theorem worth_insert (s : Store) (d : Draft) (now : Time.Instant) (user : Nat) :
    (s.insert d now).worth user = s.worth user := by
  rw [worth, worth, query_insert_of_completed (Wallet.doneBy user .charge) rfl,
    query_insert_of_completed (Wallet.doneBy user .withdrawal) rfl]

/-- Replacing an entry takes away what the old one moved and adds what the new one moves. -/
theorem sum_replaced (f : Entry → ℚ) (h : s.get? e.id = some old) :
    ((s.replace e).entries.map f).sum = (s.entries.map f).sum - f old + f e := by
  obtain ⟨hmem, hid⟩ := get?_eq_some.1 h
  have hnd := s.ascending
  change ((replaced e s.entries).map f).sum = _
  generalize s.entries = es at hmem hnd
  induction es with
  | nil => cases hmem
  | cons x xs ih =>
    rw [List.map_cons, List.pairwise_cons] at hnd
    change (((if x.id = e.id then e else x) :: replaced e xs).map f).sum = _
    rcases List.mem_cons.1 hmem with rfl | hmem
    · have hrest : replaced e xs = xs := by
        refine (List.map_congr_left fun y hy => if_neg fun hy' => ?_).trans (List.map_id xs)
        exact absurd (hnd.1 _ (List.mem_map_of_mem hy)) (by omega)
      rw [if_pos hid, hrest, List.map_cons, List.sum_cons, List.map_cons, List.sum_cons]
      ring
    · have hne : x.id ≠ e.id := fun hx => by
        have := hnd.1 _ (List.mem_map_of_mem hmem)
        omega
      rw [if_neg hne, List.map_cons, List.sum_cons, ih hmem hnd.2, List.map_cons, List.sum_cons]
      ring

theorem worth_replace (h : s.get? e.id = some old) (user : Nat) :
    (s.replace e).worth user = s.worth user - old.movesTo user + e.movesTo user := by
  rw [worth_eq_sum, worth_eq_sum, sum_replaced _ h]

/-! ## Solvency -/

/-- Whether no wallet is worth less than nothing, if the store is exact. -/
def Solvent (s : Store) : Prop := Exact s.entries → ∀ user, 0 ≤ s.worth user

theorem Solvent.empty : Solvent .empty := fun _ user => by simp [worth_eq_sum, Store.empty]

/-- An entry that may be completed leaves the wallet it moves with no less than nothing. -/
theorem Admits.worth_nonneg (h : s.Admits e) (hx : Exact s.entries) (hs : s.Solvent) (user : Nat) :
    0 ≤ s.worth user + e.movesTo user := by
  have hw := hs hx user
  rw [Entry.movesTo]
  split
  · next hu =>
    rw [Entry.moved]
    cases hk : e.kind with
    | charge => exact add_nonneg hw e.amount.toRat_pos.le
    | withdrawal =>
      have := (h.covered hk).le_worth hx
      rw [hu.1] at this
      change 0 ≤ s.worth user + -e.amount.value.toRat
      linarith
    | payment | refund => exact add_nonneg hw (le_refl 0)
  · exact add_nonneg hw (le_refl 0)

/-- Writes keep a store solvent. -/
theorem Solvent.of_writes (h : s.Solvent) (hw : s.Writes s') : s'.Solvent := by
  intro hx' user
  have hx := hw.grows.exact hx'
  cases hw with
  | insert d now =>
    rw [worth_insert]
    exact h hx user
  | amend e old stored pending origin admitted =>
    rw [worth_replace stored, Entry.movesTo_of_not_completed (by simp [pending]), sub_zero]
    by_cases hc : e.status = .completed
    · exact (admitted hc).worth_nonneg hx h user
    · rw [Entry.movesTo_of_not_completed hc, add_zero]
      exact h hx user

end Store

end Paybook
