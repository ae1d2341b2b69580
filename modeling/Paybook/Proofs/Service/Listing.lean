import Paybook.Proofs.Service.Outcomes

/-! # Listings

A listing has each stored entry that meets its conditions once, and no other one. They come newest
first, strictly descending by their creation and, where that ties, by their identifiers, also when
the clock went back between them: `Listing.lists_exactly`. -/

namespace Paybook

open Program Time

/-! ## Newer entries -/

/-- Whether an entry was made after another one, or at the same time with a larger identifier. -/
def Entry.Newer (a b : Entry) : Prop :=
  b.createdAt < a.createdAt ∨ a.createdAt = b.createdAt ∧ b.id < a.id

namespace History

theorem newerOrSame_iff {a b : Entry} :
    newerOrSame a b = true ↔
      b.createdAt < a.createdAt ∨ a.createdAt = b.createdAt ∧ b.id ≤ a.id := by
  simp [newerOrSame]

theorem newerOrSame_trans (a b c : Entry) (hab : newerOrSame a b = true)
    (hbc : newerOrSame b c = true) : newerOrSame a c = true := by
  simp only [newerOrSame_iff, Instant.lt_iff, Instant.ext_iff] at *
  omega

theorem newerOrSame_total (a b : Entry) : (newerOrSame a b || newerOrSame b a) = true := by
  simp only [Bool.or_eq_true, newerOrSame_iff, Instant.lt_iff, Instant.ext_iff]
  omega

/-- Of entries with different identifiers, none is at the same place as another one. -/
theorem newer_of_newerOrSame {a b : Entry} (h : newerOrSame a b = true) (hne : a.id ≠ b.id) :
    a.Newer b := by
  rcases newerOrSame_iff.1 h with hlater | ⟨hsame, hle⟩
  · exact .inl hlater
  · exact .inr ⟨hsame, Nat.lt_of_le_of_ne hle hne.symm⟩

theorem pairwise_newestFirst {es : List Entry} (h : (es.map Entry.id).Nodup) :
    (newestFirst es).Pairwise Entry.Newer := by
  have hsorted : (newestFirst es).Pairwise fun a b => newerOrSame a b = true :=
    List.pairwise_mergeSort newerOrSame_trans newerOrSame_total es
  have hdistinct : ((newestFirst es).map Entry.id).Nodup :=
    ((newestFirst_perm es).map Entry.id).nodup_iff.2 h
  refine (hsorted.and (List.pairwise_map.1 hdistinct)).imp ?_
  rintro a b ⟨hnewer, hne⟩
  exact newer_of_newerOrSame hnewer hne

end History

/-! ## What is listed -/

/-- A listing with arguments that it accepts. -/
inductive Listing
  | ofUser (user : Nat) (named : user ≠ 0)
  | ofOrder (order : Nat) (named : order ≠ 0)
  | withStatus (status : Status)
  | ofKind (kind : EntryKind)
  | ofUserWithStatus (user : Nat) (named : user ≠ 0) (status : Status)
  | ofUserOfKind (user : Nat) (named : user ≠ 0) (kind : EntryKind)
  | between (start stop : Instant) (ordered : start ≤ stop)
  | ofUserBetween (user : Nat) (named : user ≠ 0) (start stop : Instant) (ordered : start ≤ stop)
  | ofWallet (user : Nat) (named : user ≠ 0)
  | ofOrders (user : Nat) (named : user ≠ 0)

namespace Listing

def program : Listing → Program (List Entry)
  | ofUser user _ => History.ofUser user
  | ofOrder order _ => History.ofOrder order
  | withStatus status => History.withStatus status
  | ofKind kind => History.ofKind kind
  | ofUserWithStatus user _ status => History.ofUserWithStatus user status
  | ofUserOfKind user _ kind => History.ofUserOfKind user kind
  | between start stop _ => History.between start stop
  | ofUserBetween user _ start stop _ => History.ofUserBetween user start stop
  | ofWallet user _ => History.ofWallet user
  | ofOrders user _ => History.ofOrders user

/-- Whether an entry meets the conditions of a listing. -/
def Lists : Listing → Entry → Prop
  | ofUser user _, e => e.user = user
  | ofOrder order _, e => e.order = some order
  | withStatus status, e => e.status = status
  | ofKind kind, e => e.kind = kind
  | ofUserWithStatus user _ status, e => e.user = user ∧ e.status = status
  | ofUserOfKind user _ kind, e => e.user = user ∧ e.kind = kind
  | between start stop _, e => start ≤ e.createdAt ∧ e.createdAt < stop
  | ofUserBetween user _ start stop _, e =>
    e.user = user ∧ start ≤ e.createdAt ∧ e.createdAt < stop
  | ofWallet user _, e => e.user = user ∧ (e.kind = .charge ∨ e.kind = .withdrawal)
  | ofOrders user _, e => e.user = user ∧ (e.kind = .payment ∨ e.kind = .refund)

/-- What a listing selects. -/
def selection : Listing → Selection
  | ofUser user _ => { user := some user }
  | ofOrder order _ => { order := some order }
  | withStatus status => { status := some status }
  | ofKind kind => { kinds := some [kind] }
  | ofUserWithStatus user _ status => { user := some user, status := some status }
  | ofUserOfKind user _ kind => { user := some user, kinds := some [kind] }
  | between start stop _ => { createdFrom := some start, createdUntil := some stop }
  | ofUserBetween user _ start stop _ =>
    { user := some user, createdFrom := some start, createdUntil := some stop }
  | ofWallet user _ => { user := some user, kinds := some EntryKind.ofWallet }
  | ofOrders user _ => { user := some user, kinds := some EntryKind.ofOrder }

theorem selects_selection (l : Listing) (e : Entry) : l.selection.selects e = true ↔ l.Lists e := by
  rw [Selection.selects_iff]
  cases l <;> simp [selection, Lists, EntryKind.ofWallet, EntryKind.ofOrder]

theorem run_requireRange {w : World} {start stop : Instant} (h : start ≤ stop) :
    (History.requireRange start stop).run w = (.returned (), w) := by
  rw [History.requireRange, decide_eq_true h]
  rfl

/-- Arguments that are accepted leave the selection to be listed. -/
theorem run_program {w : World} (hw : w.Calm) (l : Listing) :
    l.program.run w = (.returned (History.newestFirst (w.store.query l.selection)), w) := by
  cases l with
  | withStatus | ofKind => exact History.run_fetch hw _
  | ofUser _ named | ofUserWithStatus _ named | ofUserOfKind _ named | ofWallet _ named
  | ofOrders _ named =>
    exact (run_bind_of_run (run_requireId named "User")).trans (History.run_fetch hw _)
  | ofOrder _ named =>
    exact (run_bind_of_run (run_requireId named "Order")).trans (History.run_fetch hw _)
  | between _ _ ordered =>
    exact (run_bind_of_run (run_requireRange ordered)).trans (History.run_fetch hw _)
  | ofUserBetween _ named _ _ ordered =>
    refine (run_bind_of_run (run_requireId named "User")).trans ?_
    exact (run_bind_of_run (run_requireRange ordered)).trans (History.run_fetch hw _)

/-- In every store, whatever the times at which its entries were made, a listing returns each stored
entry that meets its conditions once and nothing else, each one newer than all behind it, and leaves
the world as it was. -/
theorem lists_exactly (w : World) (s : Store) (l : Listing) :
    ∃ es, l.program.run (w.withStore s) = (.returned es, w.withStore s) ∧
      (∀ e, e ∈ es ↔ e ∈ s.entries ∧ l.Lists e) ∧ es.Nodup ∧ es.Pairwise Entry.Newer := by
  have hids : ((s.query l.selection).map Entry.id).Nodup :=
    (s.ascending.sublist (List.filter_sublist.map _)).imp Nat.ne_of_lt
  have hperm := History.newestFirst_perm (s.query l.selection)
  refine ⟨_, run_program (w.calm_withStore s) l, fun e => ?_, ?_, History.pairwise_newestFirst hids⟩
  · rw [World.store_withStore, hperm.mem_iff, Store.mem_query, selects_selection]
  · rw [World.store_withStore, hperm.nodup_iff]
    exact hids.of_map

/-- The clock went back before the last of three entries, and the first two were made at once. -/
example :
    let e (id : Nat) (seconds : Int) : Entry :=
      .ofDraft id ⟨1, none, ⟨.ofWord 5, by decide⟩, .charge, .card, ""⟩ ⟨seconds, 0⟩
    (History.newestFirst [e 1 60, e 2 60, e 3 59]).map Entry.id = [2, 1, 3] := by
  cbv

end Listing

end Paybook
