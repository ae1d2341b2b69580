import Mathlib.Data.List.Forall2
import Paybook.Proofs.Store.Writes
import Paybook.Service.History

/-! # Entries under other identifiers

Identifiers and random numbers come in the order in which they are asked for, and some texts quote
them. Entries are `Renamed` when they differ in nothing else. What listings, balances and summaries
say does not depend on any of this as long as the identifiers stay in their order. -/

namespace Paybook

open Time

variable {R : Nat → Nat → Prop}

/-! ## Texts -/

/-- The reference that a random number makes of a word. -/
def tagged (token : Token) (word : String) : String :=
  word ++ "-" ++ String.ofList (Text.writeHex 32 token.toNat)

/-- Whether a text is another one with an identifier in it exchanged for a related one, or with a
random number exchanged for any other. -/
inductive Requoted (R : Nat → Nat → Prop) : String → String → Prop
  | same (text : String) : Requoted R text text
  | quoted (before after : String) {id id' : Nat} (h : R id id') :
      Requoted R (before ++ toString id ++ after) (before ++ toString id' ++ after)
  | tagged (word : String) (token token' : Token) :
      Requoted R (tagged token word) (tagged token' word)

/-! ## Entries -/

/-- Whether an entry is another one under a related identifier, with texts that quote such
identifiers. -/
structure Entry.Renamed (R : Nat → Nat → Prop) (e e' : Entry) : Prop where
  id : R e.id e'.id
  reference : Option.Rel (Requoted R) e.reference e'.reference
  description : Requoted R e.description e'.description
  others : e' = { e with id := e'.id, reference := e'.reference, description := e'.description }

namespace Entry.Renamed

variable {e e' : Entry}

theorem refl (h : R e.id e.id) : e.Renamed R e where
  id := h
  reference := by
    cases e.reference with
    | none => exact .none
    | some reference => exact .some (.same reference)
  description := .same _
  others := rfl

theorem kind_eq (h : e.Renamed R e') : e'.kind = e.kind := (congrArg Entry.kind h.others :)

theorem amount_eq (h : e.Renamed R e') : e'.amount = e.amount := (congrArg Entry.amount h.others :)

theorem status_eq (h : e.Renamed R e') : e'.status = e.status := (congrArg Entry.status h.others :)

theorem createdAt_eq (h : e.Renamed R e') : e'.createdAt = e.createdAt :=
  (congrArg Entry.createdAt h.others :)

theorem keys_eq (h : e.Renamed R e') : e'.keys = e.keys := (congrArg Entry.keys h.others :)

theorem selects_eq (h : e.Renamed R e') (sel : Selection) : sel.selects e' = sel.selects e :=
  (congrArg sel.selects h.others :)

theorem isFinal_eq (h : e.Renamed R e') : e'.isFinal = e.isFinal :=
  (congrArg Entry.isFinal h.others :)

end Entry.Renamed

/-! ## Lists of entries -/

/-- Whether the entries of one list are those of another one, renamed. -/
abbrev RenamedAll (R : Nat → Nat → Prop) : List Entry → List Entry → Prop :=
  List.Forall₂ (Entry.Renamed R)

namespace RenamedAll

variable {es es' : List Entry}

theorem refl (h : ∀ e ∈ es, R e.id e.id) : RenamedAll R es es :=
  List.forall₂_same.2 fun e he => .refl (h e he)

/-- One entry is replaced on both sides. -/
theorem replaced {x x' : Entry} (h : ∀ e ∈ es, R e.id e.id) (hx : x.Renamed R x')
    (hid : x'.id = x.id) : RenamedAll R (Store.replaced x es) (Store.replaced x' es) := by
  rw [Store.replaced, Store.replaced, RenamedAll, List.forall₂_map_left_iff,
    List.forall₂_map_right_iff, List.forall₂_same, hid]
  intro e he
  split
  · exact hx
  · exact .refl (h e he)

/-- Views that do not look at what has changed. -/
theorem filter (h : RenamedAll R es es') {p : Entry → Bool}
    (hp : ∀ e e', Entry.Renamed R e e' → p e' = p e) :
    RenamedAll R (es.filter p) (es'.filter p) :=
  List.rel_filter (fun e e' he => iff_of_eq (congrArg (· = true) (hp e e' he).symm)) h

theorem completedValues_eq (h : RenamedAll R es es') (kind : EntryKind) :
    completedValues kind es' = completedValues kind es := by
  have hf := h.filter (p := fun e => e.kind == kind && e.isCompleted) fun e e' he => by
    rw [Entry.isCompleted, Entry.isCompleted, he.kind_eq, he.status_eq]
  unfold completedValues
  generalize es.filter _ = done, es'.filter _ = done' at hf
  induction hf with
  | nil => rfl
  | cons he _ ih => rw [List.map_cons, List.map_cons, he.amount_eq, ih]

theorem countP_eq (h : RenamedAll R es es') {p : Entry → Bool}
    (hp : ∀ e e', Entry.Renamed R e e' → p e' = p e) : es'.countP p = es.countP p := by
  rw [List.countP_eq_length_filter, List.countP_eq_length_filter, (h.filter hp).length_eq]

theorem countStatus_eq (h : RenamedAll R es es') (status : Status) :
    countStatus status es' = countStatus status es :=
  h.countP_eq fun _ _ he => by rw [he.status_eq]

theorem orderSummary_eq (h : RenamedAll R es es') : OrderSummary.of? es' = OrderSummary.of? es := by
  unfold OrderSummary.of?
  simp only [h.completedValues_eq, h.countStatus_eq, h.length_eq]

theorem walletSummary_eq (h : RenamedAll R es es') :
    WalletSummary.of? es' = WalletSummary.of? es := by
  have hpending := h.countP_eq (p := fun e => EntryKind.ofWallet.contains e.kind && !e.isFinal)
    fun e e' he => by rw [he.kind_eq, he.isFinal_eq]
  unfold WalletSummary.of?
  simp only [h.completedValues_eq, hpending]

theorem balance_eq (h : RenamedAll R es es') : Balance.ofEntries? es' = Balance.ofEntries? es := by
  unfold Balance.ofEntries?
  generalize Balance.zero = b
  induction h generalizing b with
  | nil => rfl
  | cons he _ ih =>
    rw [List.foldlM_cons, List.foldlM_cons, he.kind_eq, he.amount_eq]
    exact congrArg _ (funext ih)

/-- Where both sides of pairs ascend, the sides of two pairs compare alike. -/
theorem ids_le_iff {ps : List (Entry × Entry)}
    (hs : ((ps.map Prod.fst).map Entry.id).Pairwise (· < ·))
    (hs' : ((ps.map Prod.snd).map Entry.id).Pairwise (· < ·)) :
    ∀ p ∈ ps, ∀ q ∈ ps, q.1.id ≤ p.1.id ↔ q.2.id ≤ p.2.id := by
  rw [List.pairwise_map, List.pairwise_map] at hs hs'
  have hboth := hs.and hs'
  refine List.Pairwise.forall_of_forall_of_flip (fun _ _ => by simp) (hboth.imp ?_) (hboth.imp ?_)
  · rintro p q ⟨h, h'⟩
    exact iff_of_false (Nat.not_le.2 h) (Nat.not_le.2 h')
  · rintro p q ⟨h, h'⟩
    exact iff_of_true (Nat.le_of_lt h) (Nat.le_of_lt h')

/-- A listing keeps its order when the identifiers do. -/
theorem newestFirst (h : RenamedAll R es es') (hs : (es.map Entry.id).Pairwise (· < ·))
    (hs' : (es'.map Entry.id).Pairwise (· < ·)) :
    RenamedAll R (History.newestFirst es) (History.newestFirst es') := by
  -- Both listings are those of the pairs, which are sorted by either side alike.
  have hfst : (es.zip es').map Prod.fst = es := List.map_fst_zip (Nat.le_of_eq h.length_eq)
  have hsnd : (es.zip es').map Prod.snd = es' := List.map_snd_zip (Nat.le_of_eq h.length_eq.symm)
  have hpairs : ∀ p ∈ es.zip es', Entry.Renamed R p.1 p.2 := fun p hp => List.forall₂_zip h hp
  generalize es.zip es' = ps at *
  subst hfst hsnd
  have hids := ids_le_iff hs hs'
  have hsame : ∀ p ∈ ps, ∀ q ∈ ps,
      History.newerOrSame p.1 q.1 = History.newerOrSame p.2 q.2 := fun p hp q hq => by
    rw [History.newerOrSame, History.newerOrSame, (hpairs p hp).createdAt_eq,
      (hpairs q hq).createdAt_eq]
    simp only [hids p hp q hq]
  have hsorted : RenamedAll R
      ((ps.mergeSort fun p q => History.newerOrSame p.1 q.1).map Prod.fst)
      ((ps.mergeSort fun p q => History.newerOrSame p.1 q.1).map Prod.snd) := by
    rw [RenamedAll, List.forall₂_map_left_iff, List.forall₂_map_right_iff, List.forall₂_same]
    exact fun p hp => hpairs p (List.mem_mergeSort.1 hp)
  rw [List.map_mergeSort (s := History.newerOrSame) fun _ _ _ _ => rfl,
    List.map_mergeSort (s := History.newerOrSame) hsame] at hsorted
  exact hsorted

end RenamedAll

end Paybook
