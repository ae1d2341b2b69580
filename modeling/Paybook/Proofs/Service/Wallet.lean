import Paybook.Proofs.Program.Safe
import Paybook.Proofs.Service.Phases

/-! # Wallets under locks

Every call that writes to a wallet is `Safe`: it holds the lock of the user while it does, and
whatever it takes out was covered when it was taken. -/

namespace Paybook

open Program

namespace Wallet

variable {held : List LockKey} {s : Store} {user : Nat} {amount : Amount} {post : Post Entry}

/-! ## Checks -/

theorem pins_holdings (user : Nat) : (holdings user).Pins (.user user) := rfl

/-- The balance that is found under the lock of the user is that of the wallet. -/
theorem checks_holds (user : Nat) : (holds user).Checks held
    (fun b s' => .user user ∈ held →
      Balance.ofEntries? (s'.query (holdings user)) = some b) s := by
  refine (checks_select _).bind ?_
  intro es s₁ _ hes
  refine (checks_inRange _).imp ?_
  intro b s₂ ha hb hk
  rw [ha.query hk (pins_holdings user), ← hes _ hk (pins_holdings user)]
  exact hb

/-- Under the lock of the user the wallet holds what it was found to hold. -/
theorem checks_requireCovered (user : Nat) (amount : Amount) :
    (requireCovered user amount).Checks held
      (fun _ s' => .user user ∈ held → s'.Covers user amount) s := by
  refine (checks_holds user).bind ?_
  intro b s₁ _ hb
  refine (checks_require _ _).imp fun _ s₂ ha hc hk => ⟨b, ?_, hc⟩
  rw [ha.query hk (pins_holdings user)]
  exact hb hk

/-! ## Entries of wallets -/

/-- An entry that may be completed is booked and completed at once, and nothing happens to the
entries under other keys. -/
theorem secures_instant {d : Draft} {word : String} (hk : ∀ k ∈ d.keys, k ∈ held)
    (hd : d.kind ≠ .refund) (ha : ∀ id now, s.Admits (.ofDraft id d now))
    (hl : Post.Lenient post held s)
    (h : ∀ e s', s.Aside (besides held d.keys) s' → post held (.returned e) s') :
    (instant d word).Secures held post s := by
  refine secures_book_orAbandon hk (fun hr => absurd hr hd) hl ?_
  intro e s₁ post' hb hke _ hpost
  obtain ⟨id, now, rfl⟩ := hb.made
  refine secures_completeFreshly hke hb.pending hb.follows (hb.admits hke (ha id now)) ?_
  intro e' s₂ _ ha₂
  exact hpost _ _ _ (h e' s₂ (hb.aside.trans ha₂))

theorem secures_debit {reference : String} (hk : .user user ∈ held)
    (hl : Post.Lenient post held s)
    (h : ∀ e s', s.Aside (besides held [.user user]) s' → post held (.returned e) s') :
    (debit user amount reference).Secures held post s := by
  refine (checks_requireCovered user amount).secures_bind hl ?_
  intro _ s₁ ha₁ hc
  refine secures_instant (by simpa [Draft.keys] using hk) (by simp) ?_ (hl.grows ha₁.grows) ?_
  · exact fun id now => Store.admits_of_withdrawal rfl (hc hk)
  · exact fun e s₂ ha₂ => h e s₂ ((ha₁.besides _).trans ha₂)

theorem secures_creditRefund {note : String} (hk : .user user ∈ held)
    (hl : Post.Lenient post held s)
    (h : ∀ e s', s.Aside (besides held [.user user]) s' → post held (.returned e) s') :
    (creditRefund user amount note).Secures held post s :=
  secures_instant (by simpa [Draft.keys] using hk) (by simp)
    (fun _ _ => Store.admits_of_charge rfl) hl h

/-- A booked charge is completed, awaits its bank transfer, or is given up. -/
theorem secures_fund {e : Entry} {method : Method} (hk : ∀ k ∈ e.keys, k ∈ held)
    (hp : e.status = .pending) (hf : s.Follows e) (hc : e.kind = .charge)
    (hl : Post.Lenient post held s)
    (h : ∀ e' s', s.Grows s' → post held (.returned e') s') :
    (fund e method).Secures held post s := by
  have hdone : ∀ word, (completeFreshly e word).Secures held post s := fun word =>
    secures_completeFreshly hk hp hf (Store.admits_of_charge hc) fun e' s' _ ha => h e' s' ha.grows
  cases method with
  | card =>
    intro s₁ ha₁ verdict
    cases verdict with
    | approved => exact (hdone "CARD").aside ha₁
    | declined => exact secures_fail (hl.grows ha₁.grows) _
  | bankTransfer =>
    exact secures_amend hk hp hf (fun h => by cases h) fun e' s' _ ha => h e' s' ha.grows
  | adminCredit => exact hdone "ADMIN"
  | wallet | cashOnDelivery => exact secures_fail hl _

/-! ## Calls -/

theorem safe_charge (t : Terms) (user : Nat) (amount : Decimal) (method : Method)
    (description : String) : (charge t user amount method description).Safe := by
  refine .bind_of_looks (looks_requireId _ _) fun _ => ?_
  refine .bind_of_looks (.ofAttempt _) ?_
  intro amount
  refine .bind_of_looks (.require _ _) fun _ => ?_
  refine .bind_of_looks (.require _ _) fun _ => ?_
  refine .bind_of_looks (looks_requireUser user) fun _ => ?_
  refine .of_acquire ?_ fun held s hkeys => ?_
  · refine (looks_requireWithinDay _ _ _ _).lockFree.bind fun _ => ?_
    exact lockFree_book_orAbandon _ fun e => lockFree_fund e method
  refine (looks_requireWithinDay _ _ _ _).secures_bind .any ?_
  intro _ s₁ _
  refine secures_book_orAbandon hkeys (fun h => by cases h) .any ?_
  intro e s₂ post' hb hke hl hpost
  obtain ⟨id, now, rfl⟩ := hb.made
  exact secures_fund hke hb.pending hb.follows rfl hl fun e' s' _ => hpost held e' s' trivial

theorem safe_withdraw (t : Terms) (user : Nat) (amount : Decimal) (account reason : String) :
    (withdraw t user amount account reason).Safe := by
  refine .bind_of_looks (looks_requireId _ _) fun _ => ?_
  refine .bind_of_looks (.ofAttempt _) ?_
  intro amount
  refine .bind_of_looks (.require _ _) fun _ => ?_
  refine .bind_of_looks (.require _ _) fun _ => ?_
  refine .bind_of_looks (looks_requireUser user) fun _ => ?_
  refine .of_acquire ?_ fun held s hkeys => ?_
  · refine (looks_requireCovered _ _).lockFree.bind fun _ => ?_
    exact (looks_requireWithinDay _ _ _ _).lockFree.bind fun _ => lockFree_book _
  refine (checks_requireCovered user amount).secures_bind .any ?_
  intro _ s₁ _ _
  refine (looks_requireWithinDay _ _ _ _).secures_bind .any ?_
  intro _ s₂ _
  exact secures_book hkeys (fun h => by cases h) fun _ _ _ => trivial

theorem safe_withdrawForPayment (user : Nat) (amount : Decimal) (reference : String) :
    (withdrawForPayment user amount reference).Safe := by
  refine .bind_of_looks (looks_requireId _ _) fun _ => ?_
  refine .bind_of_looks (.ofAttempt _) ?_
  intro amount
  refine .of_acquire (lockFree_debit _ _ _) ?_
  intro held s hkeys
  exact secures_debit (hkeys _ List.mem_cons_self) .any fun _ _ _ => trivial

theorem safe_adminCredit (user : Nat) (amount : Decimal) (reason : String) (admin : Nat) :
    (adminCredit user amount reason admin).Safe := by
  refine .bind_of_looks (looks_adjustment _ _ _ _) ?_
  intro amount
  refine .bind_of_looks (looks_requireUser user) fun _ => ?_
  refine .of_acquire (lockFree_instant _ _) ?_
  intro held s hkeys
  exact secures_instant hkeys (by simp) (fun _ _ => Store.admits_of_charge rfl)
    .any fun _ _ _ => trivial

theorem safe_adminDebit (user : Nat) (amount : Decimal) (reason : String) (admin : Nat) :
    (adminDebit user amount reason admin).Safe := by
  refine .bind_of_looks (looks_adjustment _ _ _ _) ?_
  intro amount
  refine .bind_of_looks (looks_requireUser user) fun _ => ?_
  refine .of_acquire ?_ fun held s hkeys => ?_
  · exact (looks_requireCovered _ _).lockFree.bind fun _ => lockFree_instant _ _
  refine (checks_requireCovered user amount).secures_bind .any ?_
  intro _ s₁ _ hc
  refine secures_instant hkeys (by simp) ?_ .any fun _ _ _ => trivial
  exact fun id now => Store.admits_of_withdrawal rfl (hc (hkeys _ List.mem_cons_self))

end Wallet

end Paybook
