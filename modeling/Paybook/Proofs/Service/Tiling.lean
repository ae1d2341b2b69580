import Paybook.Proofs.Service.Listing

/-! # Listings put together

A listing is determined by what it lists, since its entries descend strictly. So a window of time
that is cut in two is listed as its later part and its earlier part in a row, and the history of a
user is divided into what moved the wallet and what belongs to orders: `History.tiles`. -/

namespace Paybook

open Program Time

/-! ## The order of time -/

instance : Preorder Instant where
  le_refl a := by rw [Instant.le_iff]; omega
  le_trans a b c hab hbc := by rw [Instant.le_iff] at *; omega
  lt_iff_le_not_ge a b := by rw [Instant.lt_iff, Instant.le_iff, Instant.le_iff]; omega

/-! ## The order of a listing -/

instance (a b : Entry) : Decidable (a.Newer b) := inferInstanceAs (Decidable (_ ∨ _))

theorem Entry.Newer.asymm {a b : Entry} (h : a.Newer b) : ¬b.Newer a := by
  simp only [Newer, Instant.lt_iff, Instant.ext_iff] at *
  omega

theorem nodup_of_newer {es : List Entry} (h : es.Pairwise Entry.Newer) : es.Nodup := by
  refine h.imp ?_
  rintro a _ hnewer rfl
  exact hnewer.asymm hnewer

/-- Lists in descending order that have the same entries are the same. -/
theorem eq_of_newer {es es' : List Entry} (h : es.Pairwise Entry.Newer)
    (h' : es'.Pairwise Entry.Newer) (hmem : ∀ e, e ∈ es ↔ e ∈ es') : es = es' := by
  have hperm : es.Perm es' :=
    (List.perm_ext_iff_of_nodup (nodup_of_newer h) (nodup_of_newer h')).2 hmem
  exact hperm.eq_of_pairwise (fun _ _ _ _ hab hba => absurd hba hab.asymm) h h'

/-! ## What a listing returns -/

namespace Listing

variable {s : Store} {l part later earlier : Listing}

/-- The entries that a listing returns from a store. -/
def entries (l : Listing) (s : Store) : List Entry := History.newestFirst (s.query l.selection)

theorem run_program_withStore (w : World) (s : Store) (l : Listing) :
    l.program.run (w.withStore s) = (.returned (l.entries s), w.withStore s) :=
  run_program (w.calm_withStore s) l

theorem mem_entries {e : Entry} : e ∈ l.entries s ↔ e ∈ s.entries ∧ l.Lists e := by
  rw [entries, (History.newestFirst_perm _).mem_iff, Store.mem_query, selects_selection]

theorem pairwise_entries (l : Listing) (s : Store) : (l.entries s).Pairwise Entry.Newer :=
  History.pairwise_newestFirst
    ((s.ascending.sublist (List.filter_sublist.map _)).imp Nat.ne_of_lt)

/-- A listing is any descending arrangement of what it lists. -/
theorem entries_eq {es : List Entry} (hsorted : es.Pairwise Entry.Newer)
    (hperm : (s.query l.selection).Perm es) : l.entries s = es :=
  eq_of_newer (l.pairwise_entries s) hsorted fun _ =>
    ((History.newestFirst_perm _).trans hperm).mem_iff

/-- Two listings of which one lists what was made after all that the other one lists come in a row
to the listing of both. -/
theorem entries_eq_append (hlists : ∀ e, l.Lists e ↔ later.Lists e ∨ earlier.Lists e)
    (hafter : ∀ e e', later.Lists e → earlier.Lists e' → e'.createdAt < e.createdAt) :
    l.entries s = later.entries s ++ earlier.entries s := by
  refine eq_of_newer (l.pairwise_entries s) ?_ fun e => ?_
  · refine List.pairwise_append.2 ⟨later.pairwise_entries s, earlier.pairwise_entries s, ?_⟩
    intro e he e' he'
    exact .inl (hafter e e' (mem_entries.1 he).2 (mem_entries.1 he').2)
  · rw [List.mem_append, mem_entries, mem_entries, mem_entries, hlists, and_or_left]

/-- A listing of some of what another one lists is a part of it, in the same order. -/
theorem entries_eq_filter {p : Entry → Bool} (hlists : ∀ e, part.Lists e ↔ l.Lists e ∧ p e = true) :
    part.entries s = (l.entries s).filter p := by
  refine eq_of_newer (part.pairwise_entries s) ?_ fun e => ?_
  · exact (l.pairwise_entries s).sublist List.filter_sublist
  · rw [List.mem_filter, mem_entries, mem_entries, hlists, and_assoc]

end Listing

/-! ## Windows and groups -/

namespace Listing

variable {s : Store} {a b c : Instant} {user : Nat}

/-- A time in a window that is cut in two is in one of its parts. -/
theorem within_iff (hab : a ≤ b) (hbc : b ≤ c) (t : Instant) :
    a ≤ t ∧ t < c ↔ (b ≤ t ∧ t < c) ∨ (a ≤ t ∧ t < b) := by
  simp only [Instant.lt_iff, Instant.le_iff] at *
  omega

theorem entries_between (hab : a ≤ b) (hbc : b ≤ c) :
    (between a c (hab.trans hbc)).entries s =
      (between b c hbc).entries s ++ (between a b hab).entries s :=
  entries_eq_append (fun e => within_iff hab hbc e.createdAt)
    fun _ _ hlater hearlier => hearlier.2.trans_le hlater.1

theorem entries_ofUserBetween (named : user ≠ 0) (hab : a ≤ b) (hbc : b ≤ c) :
    (ofUserBetween user named a c (hab.trans hbc)).entries s =
      (ofUserBetween user named b c hbc).entries s ++
        (ofUserBetween user named a b hab).entries s := by
  refine entries_eq_append (fun e => ?_) fun _ _ hlater hearlier =>
    hearlier.2.2.trans_le hlater.2.1
  simp only [Lists, within_iff hab hbc, and_or_left]

/-- Whether an entry moves money of a wallet. -/
def isOfWallet (e : Entry) : Bool := EntryKind.ofWallet.contains e.kind

theorem entries_ofWallet (named : user ≠ 0) :
    (ofWallet user named).entries s = ((ofUser user named).entries s).filter isOfWallet := by
  refine entries_eq_filter fun e => and_congr_right fun _ => ?_
  cases hkind : e.kind <;> simp [isOfWallet, hkind, EntryKind.ofWallet]

/-- What does not move money of a wallet belongs to an order. -/
theorem entries_ofOrders (named : user ≠ 0) : (ofOrders user named).entries s =
    ((ofUser user named).entries s).filter fun e => !isOfWallet e := by
  refine entries_eq_filter fun e => and_congr_right fun _ => ?_
  cases hkind : e.kind <;> simp [isOfWallet, hkind, EntryKind.ofWallet]

end Listing

/-- In every store, a window of time that is cut in two is listed as its later part and then its
earlier part, of all entries as of those of a user; and what moved a user's wallet and what belongs
to the user's orders are two parts of the user's history, in its order and without a common entry,
that together have each of its entries once. -/
theorem History.tiles (w : World) (s : Store) {user : Nat} (named : user ≠ 0) {a b c : Instant}
    (hab : a ≤ b) (hbc : b ≤ c) :
    let v := w.withStore s
    (∃ later earlier, (between b c).run v = (.returned later, v) ∧
      (between a b).run v = (.returned earlier, v) ∧
      (between a c).run v = (.returned (later ++ earlier), v) ∧
      ∀ e, e ∈ later ++ earlier ↔ e ∈ s.entries ∧ a ≤ e.createdAt ∧ e.createdAt < c) ∧
    (∃ later earlier, (ofUserBetween user b c).run v = (.returned later, v) ∧
      (ofUserBetween user a b).run v = (.returned earlier, v) ∧
      (ofUserBetween user a c).run v = (.returned (later ++ earlier), v) ∧
      ∀ e, e ∈ later ++ earlier ↔
        e ∈ s.entries ∧ e.user = user ∧ a ≤ e.createdAt ∧ e.createdAt < c) ∧
    ∃ all wallet orders, (ofUser user).run v = (.returned all, v) ∧
      (ofWallet user).run v = (.returned wallet, v) ∧
      (ofOrders user).run v = (.returned orders, v) ∧
      wallet.Sublist all ∧ orders.Sublist all ∧ wallet.Disjoint orders ∧
      (wallet ++ orders).Perm all ∧ all.Nodup ∧
      ∀ e, e ∈ all ↔ e ∈ s.entries ∧ e.user = user := by
  intro v
  have hrun : ∀ l : Listing, l.program.run v = (.returned (l.entries s), v) :=
    Listing.run_program_withStore w s
  refine ⟨⟨_, _, hrun (.between b c hbc), hrun (.between a b hab), ?_, fun e => ?_⟩,
    ⟨_, _, hrun (.ofUserBetween user named b c hbc), hrun (.ofUserBetween user named a b hab),
      ?_, fun e => ?_⟩,
    ⟨_, _, _, hrun (.ofUser user named), hrun (.ofWallet user named), hrun (.ofOrders user named),
      ?_, ?_, ?_, ?_, ?_, fun e => Listing.mem_entries⟩⟩
  · rw [← Listing.entries_between]
    exact hrun (.between a c (hab.trans hbc))
  · rw [← Listing.entries_between, Listing.mem_entries, Listing.Lists]
  · rw [← Listing.entries_ofUserBetween]
    exact hrun (.ofUserBetween user named a c (hab.trans hbc))
  · rw [← Listing.entries_ofUserBetween, Listing.mem_entries, Listing.Lists]
  · rw [Listing.entries_ofWallet]
    exact List.filter_sublist
  · rw [Listing.entries_ofOrders]
    exact List.filter_sublist
  · rw [Listing.entries_ofWallet, Listing.entries_ofOrders]
    intro e hwallet horders
    simpa [(List.mem_filter.1 hwallet).2] using (List.mem_filter.1 horders).2
  · rw [Listing.entries_ofWallet, Listing.entries_ofOrders]
    exact List.filter_append_perm _ _
  · exact nodup_of_newer (Listing.pairwise_entries _ s)

/-- Three entries of a user, of which the second one is a payment, cut at the time at which the
first two of them were made. -/
theorem History.tiles_at_tie :
    let e (id : Nat) (kind : EntryKind) (seconds : Int) : Entry :=
      .ofDraft id ⟨1, some 7, ⟨.ofWord 5, by decide⟩, kind, .card, ""⟩ ⟨seconds, 0⟩
    let s : Store := { entries := [e 1 .charge 60, e 2 .payment 60, e 3 .charge 59], lastId := 3 }
    let v := (World.opening {} 0 ⟨0, 0⟩ fun _ => 0).withStore s
    (1 : Nat) ≠ 0 ∧ (⟨59, 0⟩ : Instant) ≤ ⟨60, 0⟩ ∧ (⟨60, 0⟩ : Instant) ≤ ⟨61, 0⟩ ∧
    (∃ later earlier, (between ⟨60, 0⟩ ⟨61, 0⟩).run v = (.returned later, v) ∧
      (between ⟨59, 0⟩ ⟨60, 0⟩).run v = (.returned earlier, v) ∧
      (between ⟨59, 0⟩ ⟨61, 0⟩).run v = (.returned (later ++ earlier), v) ∧
      later.map Entry.id = [2, 1] ∧ earlier.map Entry.id = [3]) ∧
    ∃ all wallet orders, (ofUser 1).run v = (.returned all, v) ∧
      (ofWallet 1).run v = (.returned wallet, v) ∧ (ofOrders 1).run v = (.returned orders, v) ∧
      (wallet ++ orders).Perm all ∧ wallet.map Entry.id = [1, 3] ∧ orders.map Entry.id = [2] := by
  intro e s v
  have hab : (⟨59, 0⟩ : Instant) ≤ ⟨60, 0⟩ := by decide
  have hbc : (⟨60, 0⟩ : Instant) ≤ ⟨61, 0⟩ := by decide
  obtain ⟨⟨later, earlier, hlater, hearlier, hboth, -⟩, -, all, wallet, orders, hall, hwallet,
    horders, -, -, -, hperm, -⟩ := History.tiles _ s Nat.one_ne_zero hab hbc
  have hlisted (l : Listing) {es es' : List Entry} (hrun : l.program.run v = (.returned es, v))
      (hsorted : es'.Pairwise Entry.Newer) (hperm : (s.query l.selection).Perm es') : es = es' := by
    rw [Listing.run_program_withStore] at hrun
    rw [← Outcome.returned.inj (congrArg Prod.fst hrun)]
    exact Listing.entries_eq hsorted hperm
  obtain rfl : later = [e 2 .payment 60, e 1 .charge 60] :=
    hlisted (.between _ _ hbc) hlater (by decide) (.swap _ _ _)
  obtain rfl : earlier = [e 3 .charge 59] :=
    hlisted (.between _ _ hab) hearlier (by decide) (.refl _)
  obtain rfl : wallet = [e 1 .charge 60, e 3 .charge 59] :=
    hlisted (.ofWallet 1 (by decide)) hwallet (by decide) (.refl _)
  obtain rfl : orders = [e 2 .payment 60] :=
    hlisted (.ofOrders 1 (by decide)) horders (by decide) (.refl _)
  exact ⟨by decide, hab, hbc, ⟨_, _, hlater, hearlier, hboth, rfl, rfl⟩,
    all, _, _, hall, hwallet, horders, hperm, rfl, rfl⟩

end Paybook
