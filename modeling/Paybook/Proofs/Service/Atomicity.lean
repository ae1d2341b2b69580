import Paybook.Proofs.Service.Reachable

/-! # Calls on a store that fails once

When one call of the store fails and the gateways approve, a call that fails has moved nothing,
wherever the failure came: what it booked has failed, but for an entry of the wallet together with
the one that reverses it. A settlement that fails has changed nothing at all. -/

namespace Paybook

open Program Time

variable {es : List Entry} {user : Nat}

/-! ## What is left behind is worth nothing -/

theorem Wallet.opposite?_eq_some {k k' : EntryKind} : opposite? k = some k' ↔
    k = .charge ∧ k' = .withdrawal ∨ k = .withdrawal ∧ k' = .charge := by
  cases k <;> cases k' <;> decide

/-- An entry and the one that reverses it move nothing together. -/
theorem Entry.Reverses.movesTo_add {leg rev : Entry} {f : Failure} (h : rev.Reverses leg f)
    (hleg : leg.status = .completed) (hrev : rev.status = .completed) (user : Nat) :
    leg.movesTo user + rev.movesTo user = 0 := by
  have hmoved : rev.moved = -leg.moved := by
    rw [Entry.moved, Entry.moved, h.amount]
    rcases Wallet.opposite?_eq_some.1 h.kind with ⟨hl, hr⟩ | ⟨hl, hr⟩ <;>
      simp [hl, hr, EntryKind.signed]
  rw [Entry.movesTo, Entry.movesTo, h.user, hleg, hrev, hmoved]
  split <;> ring

namespace Undone

theorem movesTo_sum (h : Undone es) (user : Nat) : (es.map fun e => e.movesTo user).sum = 0 := by
  cases h with
  | nothing => rfl
  | failed status => simp [Entry.movesTo_of_not_completed, status]
  | reversed completed reversal _ reverses =>
    simpa using reverses.movesTo_add completed reversal user

theorem status (h : Undone es) : ∀ e ∈ es,
    e.status = .failed ∨ e.status = .completed ∧ e.kind ∈ EntryKind.ofWallet := by
  cases h with
  | nothing => exact fun _ he => by cases he
  | @failed leg status =>
    intro e he
    rw [List.mem_singleton.1 he]
    exact .inl status
  | @reversed leg rev f completed reversal _ reverses =>
    have hkinds : leg.kind ∈ EntryKind.ofWallet ∧ rev.kind ∈ EntryKind.ofWallet := by
      rcases Wallet.opposite?_eq_some.1 reverses.kind with ⟨hl, hr⟩ | ⟨hl, hr⟩ <;>
        simp [hl, hr, EntryKind.ofWallet]
    intro e he
    rcases List.mem_cons.1 he with rfl | he
    · exact .inr ⟨completed, hkinds.1⟩
    · rw [List.mem_singleton.1 he]
      exact .inr ⟨reversal, hkinds.2⟩

end Undone

namespace Call

/-- The kind of the entry that a call books for what it is asked for. -/
def ownKind? : Call → Option EntryKind
  | charge _ _ _ _ | adminCredit _ _ _ _ => some .charge
  | withdraw _ _ _ _ | withdrawForPayment _ _ _ | adminDebit _ _ _ _ => some .withdrawal
  | pay _ _ _ => some .payment
  | refund _ _ => some .refund
  | settle _ _ _ _ => none

/-- The entries that a failed call may leave behind: none is pending, those that it booked for what
it was asked for have failed, and completed are at most one of the wallet and the one that
reverses it. -/
structure Remains (c : Call) (es : List Entry) : Prop where
  ended : ∀ e ∈ es, e.status = .failed ∨ e.status = .completed
  own : ∀ e ∈ es, c.ownKind? = some e.kind → e.status = .failed
  completed : es.filter Entry.isCompleted = [] ∨ ∃ leg rev f,
    es.filter Entry.isCompleted = [leg, rev] ∧ leg.method = .wallet ∧ rev.Reverses leg f

/-- What a failed call may make of a store: every wallet is worth what it was, the entries that were
there are as they were, and a settlement has changed nothing. -/
structure Reverted (c : Call) (s s' : Store) : Prop where
  worth : ∀ user, s'.worth user = s.worth user
  entries : ∃ es, s'.entries = s.entries ++ es ∧ c.Remains es
  settlement : ∀ entry status reference notes, c = settle entry status reference notes → s' = s

theorem Remains.nil (c : Call) : c.Remains [] where
  ended _ h := absurd h List.not_mem_nil
  own _ h := absurd h List.not_mem_nil
  completed := .inl rfl

theorem Reverted.refl (c : Call) (s : Store) : c.Reverted s s :=
  ⟨fun _ => rfl, ⟨[], (List.append_nil _).symm, .nil c⟩, fun _ _ _ _ _ => rfl⟩

end Call

namespace Residue

variable {d : Draft} {now : Instant}

theorem movesTo_sum (h : Residue d now es) (user : Nat) :
    (es.map fun e => e.movesTo user).sum = 0 := by
  cases h with
  | nothing => rfl
  | failed made _ undone =>
    rw [List.map_cons, List.sum_cons, undone.movesTo_sum, add_zero]
    exact Entry.movesTo_of_not_completed (by simp [made.status_eq]) user

/-- What is left of a draft remains of a call that books it for what it is asked for. -/
theorem remains {c : Call} (h : Residue d now es) (hown : c.ownKind? = some d.kind) :
    c.Remains es := by
  cases h with
  | nothing => exact .nil c
  | @failed x rest made hrest undone =>
    have hx : x.isCompleted = false := by simp [Entry.isCompleted, made.status_eq]
    refine ⟨?_, ?_, ?_⟩
    · intro e he
      rcases List.mem_cons.1 he with rfl | he
      · exact .inl made.status_eq
      · exact (undone.status e he).imp_right And.left
    · intro e he hk
      rcases List.mem_cons.1 he with rfl | he
      · exact made.status_eq
      · rcases undone.status e he with h | ⟨-, hwallet⟩
        · exact h
        · -- Beside an entry for an order there are only entries of the wallet.
          have horder := hrest (List.ne_nil_of_mem he)
          rw [hown, Option.some.injEq] at hk
          rw [hk] at horder
          cases hek : e.kind <;> rw [hek] at horder hwallet <;>
            simp [EntryKind.ofOrder, EntryKind.ofWallet] at horder hwallet
    · rw [List.filter_cons_of_neg (by simp [hx])]
      cases undone with
      | nothing => exact .inl rfl
      | failed status => exact .inl (by simp [Entry.isCompleted, status])
      | @reversed leg rev f completed reversal method reverses =>
        exact .inr ⟨leg, rev, f, by simp [Entry.isCompleted, completed, reversal], method, reverses⟩

theorem reverted {c : Call} {s s' : Store} (h : Residue d now es) (hs : s.Extends es s')
    (hown : c.ownKind? = some d.kind) : c.Reverted s s' where
  worth user := by rw [hs.worth, h.movesTo_sum, add_zero]
  entries := ⟨es, hs.entries, h.remains hown⟩
  settlement _ _ _ _ h := by rw [h] at hown; cases hown

end Residue

namespace Call

variable {t : Terms} {w w' : World} {c : Call} {a : Action}

theorem Plans.reverted (h : Plans t w c a) (hl : a.Leaves w w') : c.Reverted w.store w'.store := by
  cases h with
  | refuse | stop | settle =>
    rw [show w'.store = w.store from hl]
    exact .refl _ _
  | charge | withdraw | withdrawForPayment | adminCredit | adminDebit | pay | refund =>
    obtain ⟨es, hs, hr⟩ := hl
    exact hr.reverted hs rfl

/-- Whatever call of the store fails, a call that fails on a ledger whose gateways approve moves no
money and leaves nothing open: its entries have failed, but for an entry of the wallet with the one
that reverses it. A settlement that fails changes nothing. A trouble names the failing call by its
sort and by how many such calls come before it. -/
theorem reverted_of_failed (t : Terms) (w : World) (es : List Event) (c : Call) (tr : Trouble)
    (f : Failure) (hrefuse : tr.effect = .refuse) (honce : tr.times = 1)
    (happroves : ((w.withStore .empty).after t es).Approves)
    (hfailed : (c.run t (((w.withStore .empty).after t es).troubled [tr])).1 = .failed f) :
    c.Reverted ((w.withStore .empty).after t es).store
      (c.run t (((w.withStore .empty).after t es).troubled [tr])).2.store := by
  have hcalm := (World.written_after (t := t) (w.calm_withStore .empty) es).1
  have hpay := World.payable_after t w es
  generalize (w.withStore .empty).after t es = v at *
  obtain ⟨a, hplan, hrisks⟩ := c.risks t hcalm hpay
  obtain ⟨v', troubles, hend, heffect | hleaves⟩ := hrisks.run_troubled hcalm hrefuse honce
  · rw [show (c.run t (v.troubled [tr])).2 = v'.troubled troubles from hend]
    rw [show ((c.program t).run (v.troubled [tr])).1 = .failed f from hfailed] at heffect
    cases heffect with
    | refused => exact .refl c _
    | declined declined _ _ =>
      have hverdict := declined.verdict
      rw [happroves] at hverdict
      cases hverdict
  · rw [show (c.run t (v.troubled [tr])).2 = v'.troubled troubles from hend]
    exact (hplan.reverted (hleaves happroves) : c.Reverted v.store v'.store)

/-- The store refuses to complete a payment for which the wallet has been debited: the debit is
reversed, and the payment fails. -/
theorem reverted_of_failed_payment :
    let w : World := ⟨{}, {}, {}, .cycling [], .cycling [], ⟨0, 0⟩, fun _ => 0, 0⟩
    let v := (w.withStore .empty).after {} [.user ⟨1, "Ada"⟩, .order ⟨1, 1, .ofWord 4, "PENDING"⟩,
      .call (.adminCredit 1 (.ofWord 10) "gift" 1)]
    let refusal : Trouble := { sort := .update, kind := some .payment }
    let v' := (pay 1 1 .wallet).run {} (v.troubled [refusal])
    v'.1 = .failed (.storage "store fault") ∧ (pay 1 1 .wallet).Reverted v.store v'.2.store ∧
      v'.2.store.entries.map (fun e => (e.kind, e.status)) = [(.charge, .completed),
        (.payment, .failed), (.withdrawal, .completed), (.charge, .completed)] := by
  intro w v refusal v'
  have hfailed : v'.1 = .failed (.storage "store fault") := by decide +kernel
  refine ⟨hfailed, ?_, by decide +kernel⟩
  exact reverted_of_failed {} w _ _ refusal _ rfl rfl (fun desk => by cases desk <;> rfl) hfailed

end Call

end Paybook
