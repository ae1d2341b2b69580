import Mathlib.Data.List.Forall2
import Mathlib.Data.List.Nodup
import Mathlib.Data.Set.Function
import Paybook.Proofs.Service.Reachable
import Paybook.Session.Basic

/-! # Entries of orders and of wallets

An entry for an order that the wallet moves the money of carries the identifier of the entry of the
wallet in its reference. In the store of a session these references are a bijection between the
completed entries of either sort, which keeps users and amounts. References that settlements give
to other entries do not matter, whatever they look like. -/

namespace Paybook

open Program Time

theorem EntryKind.leg?_eq_some {k k' : EntryKind} : k.leg? = some k' ↔
    k = .payment ∧ k' = .withdrawal ∨ k = .refund ∧ k' = .charge := by
  cases k <;> cases k' <;> decide

/-! ## References -/

/-- The reference of an entry whose money the entry of the wallet with this identifier moves. -/
def Payment.legReference (id : Nat) : String := s!"WALLET-{id}"

theorem Payment.legReference_injective : Function.Injective legReference := by
  intro a b h
  have hlist : "WALLET-".toList ++ (String.ofList (Nat.toDigits 10 a)).toList =
      "WALLET-".toList ++ (String.ofList (Nat.toDigits 10 b)).toList := by
    rw [← String.toList_append, ← String.toList_append]
    exact congrArg String.toList h
  have hdigits : Nat.toDigits 10 a = Nat.toDigits 10 b := by
    simpa using hlist
  rw [← Nat.ofDigitChars_ten_toDigits (n := a), hdigits, Nat.ofDigitChars_ten_toDigits]

/-- Whether an entry carries the identifier of another one, of the same user and amount. -/
structure Entry.PaidBy (e leg : Entry) : Prop where
  reference : e.reference = some (Payment.legReference leg.id)
  user : leg.user = e.user
  amount : leg.amount = e.amount

/-- Whether an entry is completed, of this kind, and made by the wallet. -/
def Entry.isByWallet (kind : EntryKind) (e : Entry) : Bool :=
  e.isCompleted && e.kind == kind && e.method == .wallet

theorem Entry.isByWallet_of_ne {e : Entry} (h : e.method ≠ .wallet) (kind : EntryKind) :
    e.isByWallet kind = false := by
  simp [isByWallet, h]

theorem Entry.isByWallet_of_completed {e : Entry} {kind : EntryKind} (hc : e.status = .completed)
    (hm : e.method = .wallet) : e.isByWallet kind = (e.kind == kind) := by
  simp [isByWallet, isCompleted, hc, hm]

namespace Store

variable {s s' : Store} {es : List Entry} {e leg : Entry} {kind kind' : EntryKind}

/-- The completed entries of a kind that were made by the wallet. -/
def byWallet (s : Store) (kind : EntryKind) : List Entry := s.entries.filter (Entry.isByWallet kind)

/-- The entry whose identifier an entry carries. -/
def legOf? (s : Store) (e : Entry) : Option Entry :=
  s.entries.find? fun leg => e.reference == some (Payment.legReference leg.id)

theorem legOf?_eq (h : e.PaidBy leg) (hleg : leg ∈ s.entries) : s.legOf? e = some leg := by
  have hget : s.get? leg.id = some leg := get?_eq_some.2 ⟨hleg, rfl⟩
  rw [← hget]
  refine congrArg (fun p => s.entries.find? p) (funext fun x => ?_)
  rw [h.reference, Bool.eq_iff_iff, beq_iff_eq, beq_iff_eq, Option.some.injEq,
    Payment.legReference_injective.eq_iff, eq_comm]

/-- Whether the entries of two kinds that were made by the wallet belong together one by one, and no
entry is pending that was made by it. -/
structure Paired (s : Store) : Prop where
  pending : ∀ e ∈ s.entries, e.status = .pending → e.method ≠ .wallet
  legs : ∀ kind kind', kind.leg? = some kind' →
    List.Forall₂ Entry.PaidBy (s.byWallet kind) (s.byWallet kind')

theorem Paired.empty : Store.empty.Paired :=
  ⟨fun _ h => absurd h List.not_mem_nil, fun _ _ _ => .nil⟩

theorem Paired.extends (h : s.Paired) (he : s.Extends es s')
    (hpending : ∀ e ∈ es, e.status = .pending → e.method ≠ .wallet)
    (hlegs : ∀ kind kind', kind.leg? = some kind' →
      List.Forall₂ Entry.PaidBy (es.filter (Entry.isByWallet kind))
        (es.filter (Entry.isByWallet kind'))) : s'.Paired := by
  refine ⟨fun e hmem => ?_, fun kind kind' hk => ?_⟩
  · rw [he.entries] at hmem
    exact (List.mem_append.1 hmem).elim (h.pending e) (hpending e)
  · rw [byWallet, byWallet, he.entries, List.filter_append, List.filter_append]
    exact List.rel_append (h.legs kind kind' hk) (hlegs kind kind' hk)

/-- Entries that were not made by the wallet change nothing. -/
theorem Paired.extends_of_ne (h : s.Paired) (he : s.Extends [e] s')
    (hpending : e.status = .pending → e.method ≠ .wallet)
    (hnot : ∀ kind, e.isByWallet kind = false) : s'.Paired := by
  refine h.extends he (by simpa using hpending) fun kind kind' _ => ?_
  rw [List.filter_singleton, List.filter_singleton, hnot, hnot]
  exact .nil

/-- Replacing an entry that was not made by the wallet changes nothing. -/
theorem Paired.replace (h : s.Paired) (hget : s.get? e.id = some leg) (ho : e.origin = leg.origin)
    (hmethod : leg.method ≠ .wallet) : (s.replace e).Paired := by
  have hsame : ∀ kind, (s.replace e).byWallet kind = s.byWallet kind := fun kind =>
    filter_replace hget (Entry.isByWallet_of_ne hmethod kind)
      (Entry.isByWallet_of_ne (Entry.method_eq_of_origin ho ▸ hmethod) kind)
  refine ⟨fun x hx hp => ?_, fun kind kind' hk => ?_⟩
  · rcases mem_replaced hx with ⟨hx, -⟩ | rfl
    · exact h.pending x hx hp
    · exact Entry.method_eq_of_origin ho ▸ hmethod
  · rw [hsame, hsame]
    exact h.legs kind kind' hk

/-- An entry that the wallet moves the money of comes together with the one that moves it. -/
theorem Paired.extends_of_paidBy (h : s.Paired) (he : s.Extends [e, leg] s')
    (hpaid : e.PaidBy leg) (hkind : e.kind.leg? = some leg.kind)
    (hmethods : e.method = .wallet ∧ leg.method = .wallet)
    (hcompleted : e.status = .completed ∧ leg.status = .completed) : s'.Paired := by
  refine h.extends he ?_ fun kind kind' hk => ?_
  · simp [hcompleted]
  · simp only [List.filter_cons, List.filter_nil,
      Entry.isByWallet_of_completed hcompleted.1 hmethods.1,
      Entry.isByWallet_of_completed hcompleted.2 hmethods.2]
    rcases EntryKind.leg?_eq_some.1 hkind with ⟨h₁, h₂⟩ | ⟨h₁, h₂⟩ <;>
      rcases EntryKind.leg?_eq_some.1 hk with ⟨rfl, rfl⟩ | ⟨rfl, rfl⟩ <;> simp [h₁, h₂, hpaid]

end Store

/-! ## Effects -/

namespace Action

variable {w w' : World} {a : Action} {o : Outcome Entry}

/-- Whatever a call does but take money out alone, orders and wallets keep belonging together. -/
theorem Effect.paired (h : a.Effect w o w') (hs : a.Sound w)
    (hinstant : ∀ d word, a = .instant d word → d.method ≠ .wallet) (hp : w.store.Paired) :
    w'.store.Paired := by
  cases h with
  | refused | stopped => exact hp
  | instant gains made =>
    have hm := made.method_eq.trans_ne (hinstant _ _ rfl)
    exact hp.extends_of_ne gains.store (fun _ => hm) (Entry.isByWallet_of_ne hm)
  | entrusted done =>
    cases done with
    | alone method _ gains made =>
      have hm := made.method_eq.trans_ne method
      exact hp.extends_of_ne gains.store (fun _ => hm) (Entry.isByWallet_of_ne hm)
    | paired method legKind gains made legMade =>
      refine hp.extends_of_paidBy gains.store ⟨made.reference_eq, ?_, ?_⟩ ?_
        ⟨made.method_eq.trans method, legMade.method_eq⟩ ⟨made.status_eq, legMade.status_eq⟩
      · rw [legMade.user_eq, made.user_eq]
      · rw [legMade.amount_eq, made.amount_eq]
      · rw [made.kind_eq, legKind, legMade.kind_eq]
  | declined _ gains made =>
    refine hp.extends_of_ne gains.store (fun h => ?_) fun kind => ?_
    · rw [made.status_eq] at h
      cases h
    · simp [Entry.isByWallet, Entry.isCompleted, made.status_eq]
  | settled _ origin _ _ store =>
    rw [store]
    have hmem := (Store.get?_eq_some.1 hs.1).1
    refine hp.replace (Entry.id_eq_of_origin origin ▸ hs.1) origin ?_
    exact hp.pending _ hmem hs.2.1

end Action

/-! ## Sessions -/

namespace Session

variable {s : Session}

/-- The session after some operations, each at its time. -/
def after (s : Session) (ops : List (Instant × Operation)) : Session :=
  ops.foldl (fun s (now, o) => ({ s with world := s.world.atTime now }.apply o).2) s

/-- Whether a call is one of those that operations make, which never take money out of a wallet for
nothing that is booked itself. -/
def Makes : Call → Prop
  | .withdrawForPayment _ _ _ => False
  | _ => True

/-- An operation is one event of a ledger. -/
theorem apply_eq_after (s : Session) (o : Operation) : ∃ e : Event, (∀ c, e = .call c → Makes c) ∧
    (s.apply o).2 = { s with world := e.after s.terms s.world } := by
  cases o with
  | user id name => exact ⟨.user ⟨id, name⟩, nofun, rfl⟩
  | order o => exact ⟨.order o, nofun, rfl⟩
  | charge | withdraw | adminCredit | adminDebit | pay | refund | settle =>
    refine ⟨.call _, ?_, rfl⟩
    rintro _ ⟨⟩
    trivial

/-- Operations are a history of a ledger. -/
theorem after_eq_after (s : Session) (ops : List (Instant × Operation)) :
    ∃ es : List Event, (∀ c, .call c ∈ es → Makes c) ∧
      (s.after ops).world = s.world.after s.terms es := by
  induction ops generalizing s with
  | nil => exact ⟨[], nofun, rfl⟩
  | cons op ops ih =>
    obtain ⟨now, o⟩ := op
    obtain ⟨e, he, happly⟩ := apply_eq_after { s with world := s.world.atTime now } o
    obtain ⟨es, hes, hrest⟩ := ih ({ s with world := s.world.atTime now }.apply o).2
    refine ⟨.time now :: e :: es, ?_, ?_⟩
    · intro c hc
      rcases List.mem_cons.1 hc with hc | hc
      · cases hc
      · rcases List.mem_cons.1 hc with hc | hc
        · exact he c hc.symm
        · exact hes c hc
    · rw [happly] at hrest
      change ((({ s with world := s.world.atTime now } : Session).apply o).2.after ops).world = _
      rw [happly]
      exact hrest

theorem paired_after (s : Session) (ops : List (Instant × Operation)) :
    (({ s with world := s.world.withStore .empty } : Session).after ops).world.store.Paired := by
  obtain ⟨es, hes, hafter⟩ :=
    after_eq_after ({ s with world := s.world.withStore .empty } : Session) ops
  rw [hafter]
  refine World.after_induction s.world .empty ?_ hes
  intro w w' c a o hw hpay hmakes hplan heffect hpaired
  refine heffect.paired (hplan.sound hpay) ?_ hpaired
  rintro d word rfl
  cases hplan with
  | withdrawForPayment => exact hmakes.elim
  | adminCredit | adminDebit => simp

end Session

/-! ## One to one -/

/-- Whether the entries of one kind that the wallet moves the money of and the entries of the other
kind that move it are the same, but for their kinds: carrying the identifier is a bijection, users
and amounts are kept, and for every user both come to the same. -/
structure Store.Matches (s : Store) (kind kind' : EntryKind) : Prop where
  bijection : Set.BijOn s.legOf? {e | e ∈ s.byWallet kind} (some '' {leg | leg ∈ s.byWallet kind'})
  keeps : ∀ e ∈ s.byWallet kind, ∀ leg, s.legOf? e = some leg →
    leg.user = e.user ∧ leg.amount = e.amount
  totals : ∀ user, total ((s.byWallet kind).filter (·.user == user)) =
    total ((s.byWallet kind').filter (·.user == user))

namespace Store

variable {s : Store} {kind kind' : EntryKind}

/-- What is found under the identifier that an entry carries is the entry that belongs to it. -/
theorem forall₂_legOf? {es legs : List Entry} (h : List.Forall₂ Entry.PaidBy es legs)
    (hlegs : ∀ leg ∈ legs, leg ∈ s.entries) :
    List.Forall₂ (fun e leg => s.legOf? e = some leg ∧ e.PaidBy leg) es legs := by
  induction h with
  | nil => exact .nil
  | cons hpaid _ ih =>
    refine .cons ⟨legOf?_eq hpaid (hlegs _ List.mem_cons_self), hpaid⟩ (ih fun leg hleg => ?_)
    exact hlegs leg (List.mem_cons_of_mem _ hleg)

theorem Paired.legs_found (h : s.Paired) (hk : kind.leg? = some kind') :
    List.Forall₂ (fun e leg => s.legOf? e = some leg ∧ e.PaidBy leg) (s.byWallet kind)
      (s.byWallet kind') :=
  forall₂_legOf? (h.legs kind kind' hk) fun _ hleg => (List.mem_filter.1 hleg).1

theorem Paired.map_legOf? (h : s.Paired) (hk : kind.leg? = some kind') :
    (s.byWallet kind).map s.legOf? = (s.byWallet kind').map some := by
  rw [← List.forall₂_eq_eq_eq, List.forall₂_map_left_iff, List.forall₂_map_right_iff]
  exact (h.legs_found hk).imp fun _ _ hfound => hfound.1

theorem Paired.bijOn_legOf? (h : s.Paired) (hk : kind.leg? = some kind') :
    Set.BijOn s.legOf? {e | e ∈ s.byWallet kind} (some '' {leg | leg ∈ s.byWallet kind'}) := by
  have hmap := h.map_legOf? hk
  have hnodup : ((s.byWallet kind).map s.legOf?).Nodup := by
    rw [hmap]
    exact (s.nodup_entries.filter _).map (Option.some_injective _)
  refine ⟨fun e he => ?_, fun e he e' he' heq => ?_, ?_⟩
  · have hmem := List.mem_map_of_mem (f := s.legOf?) he
    rw [hmap] at hmem
    exact List.mem_map.1 hmem
  · exact List.inj_on_of_nodup_map hnodup he he' heq
  · rintro _ ⟨leg, hleg, rfl⟩
    have hmem := List.mem_map_of_mem (f := some) hleg
    rw [← hmap] at hmem
    exact List.mem_map.1 hmem

theorem Paired.paidBy_of_legOf? (h : s.Paired) (hk : kind.leg? = some kind') {e leg : Entry}
    (he : e ∈ s.byWallet kind) (hleg : s.legOf? e = some leg) : e.PaidBy leg := by
  have hpaid := (h.legs_found hk).imp
    (S := fun e _ => (∀ leg, s.legOf? e = some leg → e.PaidBy leg) ∧ True) ?_
  · exact ((List.forall₂_and_left _ _).1 hpaid).1 e he leg hleg
  · rintro e leg ⟨hfound, hpaid⟩
    refine ⟨fun leg' hleg' => ?_, trivial⟩
    rw [hfound] at hleg'
    exact Option.some.inj hleg' ▸ hpaid

theorem Paired.total_eq (h : s.Paired) (hk : kind.leg? = some kind') (user : Nat) :
    total ((s.byWallet kind).filter (·.user == user)) =
      total ((s.byWallet kind').filter (·.user == user)) := by
  have hsame : Relator.LiftFun Entry.PaidBy (· ↔ ·) (fun e => (e.user == user) = true)
      (fun e => (e.user == user) = true) := fun e leg h => by
    change (e.user == user) = true ↔ (leg.user == user) = true
    rw [h.user]
  have hpaid := List.rel_filter hsame (h.legs kind kind' hk)
  refine congrArg List.sum ?_
  rw [← List.forall₂_eq_eq_eq, List.forall₂_map_left_iff, List.forall₂_map_right_iff]
  exact hpaid.imp fun e leg h => by rw [h.amount]

theorem Paired.matches (h : s.Paired) (hk : kind.leg? = some kind') : s.Matches kind kind' where
  bijection := h.bijOn_legOf? hk
  keeps _ he _ hleg :=
    have hpaid := h.paidBy_of_legOf? hk he hleg
    ⟨hpaid.user, hpaid.amount⟩
  totals := h.total_eq hk

end Store

/-- In the store of a session, completed payments by wallet and completed withdrawals by wallet
belong together one to one, and so do refunds and charges. -/
theorem Session.legs_match (s : Session) (ops : List (Instant × Operation)) :
    let s' := ({ s with world := s.world.withStore .empty } : Session).after ops
    s'.world.store.Matches .payment .withdrawal ∧ s'.world.store.Matches .refund .charge :=
  ⟨(s.paired_after ops).matches rfl, (s.paired_after ops).matches rfl⟩

end Paybook
