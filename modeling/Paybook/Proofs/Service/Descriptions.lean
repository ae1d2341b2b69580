import Paybook.Proofs.Service.WellKept

/-! # What entries say of themselves

Every draft of a call has a description, and no change takes it away. So all that is pending on a
ledger is described, and what a change adds stands behind what was there:
`World.described_after`. -/

namespace Paybook

open Program Time

/-- Whether a request leaves no entry pending without a description. -/
def Request.Describes : Request → Prop
  | .insert d => d.description ≠ ""
  | .update e => e.status = .pending → e.description ≠ ""
  | _ => True

/-- Whether every pending entry has a description. -/
def Store.Described (s : Store) : Prop := ∀ e ∈ s.entries, e.status = .pending → e.description ≠ ""

theorem Store.Described.empty : Store.empty.Described := fun _ h => absurd h List.not_mem_nil

theorem Request.Looks.describes {r : Request} (h : r.Looks) : r.Describes := by
  cases r with
  | insert | update => exact absurd h id
  | _ => trivial

/-! ## Runs -/

section Run

variable {α : Type} {p : Program α} {w : World}

theorem Request.Describes.answer {r : Request} (h : r.Describes) (hw : w.Calm)
    (hs : w.store.Described) : (w.answer r).2.Calm ∧ (w.answer r).2.store.Described := by
  by_cases hlooks : r.Looks
  · have ha := World.Alike.answer hw hlooks
    exact ⟨ha.calm, ha.store ▸ hs⟩
  cases r with
  | insert d =>
    rw [hw.answer_insert]
    refine ⟨w.calm_withStore _, fun e he => ?_⟩
    rcases List.mem_append.1 he with he | he
    · exact hs e he
    · rw [List.mem_singleton.1 he]
      exact fun _ => h
  | update e =>
    rcases hw.answer_update_or e with ⟨f, hanswer⟩ | hanswer
    · rw [hanswer]
      exact ⟨hw, hs⟩
    · rw [hanswer]
      refine ⟨w.calm_withStore _, fun x hx => ?_⟩
      rcases Store.mem_replaced hx with ⟨hx, -⟩ | rfl
      · exact hs x hx
      · exact h
  | lock => exact ⟨hw, hs⟩
  | _ => exact absurd trivial hlooks

/-- A program of such requests leaves every pending entry described. -/
theorem Program.Only.described_run (h : p.Only Request.Describes) (hw : w.Calm)
    (hs : w.store.Described) : (p.run w).2.Calm ∧ (p.run w).2.store.Described := by
  induction p generalizing w with
  | done o => exact ⟨hw, hs⟩
  | ask r next ih =>
    obtain ⟨hcalm, hstore⟩ := h.1.answer hw hs
    exact ih _ (h.2 _) hcalm hstore

end Run

/-! ## Shared steps -/

namespace Program

variable {α β : Type} {p : Program α}

theorem Looks.describes_bind {f : α → Program β} (h : p.Looks)
    (hf : ∀ a, (f a).Only Request.Describes) : (p >>= f).Only Request.Describes :=
  (h.mono fun _ hr => hr.describes).bind hf

theorem describes_acquire (keys : List LockKey) : (acquire keys).Only Request.Describes := by
  rw [acquire]
  induction LockKey.schedule keys with
  | nil => trivial
  | cons key keys ih => exact ⟨trivial, fun _ => ih⟩

/-- An entry that is amended, if what is left pending is described. -/
theorem describes_amend {c : Change} {e : Entry}
    (h : ∀ now, Request.Describes (.update (c.result e now))) :
    (change c e >>= update).Only Request.Describes := by
  refine ⟨trivial, fun now => ?_⟩
  change ((ofAttempt (c.apply e now)).bind update).Only _
  cases happly : c.apply e now with
  | error f => trivial
  | ok e' =>
    obtain ⟨-, rfl⟩ := Change.apply_eq_ok.1 happly
    exact ⟨h now, fun _ => .ofAttempt _⟩

/-- An entry with a note has a description. -/
theorem describes_note {text : String} (htext : text ≠ "") (e : Entry) :
    (change (.note text) e >>= update).Only Request.Describes := by
  refine describes_amend fun now _ => ?_
  change Entry.withNote e.description text ≠ ""
  unfold Entry.withNote
  split <;> simp [htext]

theorem describes_complete (e : Entry) (reference : String) :
    (complete e reference).Only Request.Describes :=
  describes_amend (c := .complete reference) fun _ => nofun

theorem describes_completeFreshly (e : Entry) (word : String) :
    (completeFreshly e word).Only Request.Describes :=
  ((Only.request trivial).bind fun _ => .done _).bind fun _ => describes_complete e _

theorem describes_abandon (id : Nat) (f : Failure) : (abandon id f).Only Request.Describes := by
  refine (Only.request trivial).bind ?_
  intro reply
  split
  · split
    · trivial
    · next e _ =>
      refine (Only.request trivial).bind ?_
      intro now
      split
      · next happly =>
        obtain ⟨-, rfl⟩ := Change.apply_eq_ok (c := .fail f.detail).1 happly
        exact (Only.request nofun).bind fun _ => trivial
      · trivial
  · trivial

theorem describes_book {d : Draft} (h : d.description ≠ "") :
    (book d).Only Request.Describes :=
  (Only.request h).bind fun _ => .ofAttempt _

/-- Booking an entry and bringing it to its end. -/
theorem describes_book_orAbandon {d : Draft} (h : d.description ≠ "") {f : Entry → Program Entry}
    (hf : ∀ e, (f e).Only Request.Describes) :
    (book d >>= fun e => orAbandon e (f e)).Only Request.Describes :=
  (describes_book h).bind fun e => (hf e).onFailure (describes_abandon e.id)

end Program

/-! ## Wallets -/

namespace Wallet

theorem describes_instant {d : Draft} (h : d.description ≠ "") (word : String) :
    (instant d word).Only Request.Describes :=
  describes_book_orAbandon h fun e => describes_completeFreshly e word

theorem describes_debit (user : Nat) (amount : Amount) (reference : String) :
    (debit user amount reference).Only Request.Describes :=
  (looks_requireCovered user amount).describes_bind fun _ => describes_instant (by simp) _

theorem describes_fund (e : Entry) (method : Method) : (fund e method).Only Request.Describes := by
  cases method with
  | card =>
    refine (Only.request trivial).bind ?_
    intro verdict
    cases verdict with
    | approved => exact describes_completeFreshly e _
    | declined => trivial
  | bankTransfer => exact describes_note (by simp) e
  | adminCredit => exact describes_completeFreshly e _
  | wallet | cashOnDelivery => trivial

theorem describes_reverse (e : Entry) (f : Failure) : (reverse e f).Only Request.Describes := by
  unfold reverse
  split
  · trivial
  · exact ((describes_instant (by simp) _).onFailure fun _ => .done _).bind fun _ => .done _

end Wallet

/-! ## Payments -/

namespace Payment

theorem describes_completeBy (e leg : Entry) : (completeBy e leg).Only Request.Describes :=
  (describes_complete e _).onFailure (Wallet.describes_reverse leg)

theorem describes_collect (e : Entry) (method : Method) :
    (collect e method).Only Request.Describes := by
  cases method with
  | wallet => exact (Wallet.describes_debit _ _ _).bind fun leg => describes_completeBy e leg
  | card =>
    refine (Only.request trivial).bind ?_
    intro verdict
    cases verdict with
    | approved => exact describes_completeFreshly e _
    | declined => trivial
  | cashOnDelivery => exact describes_note (by simp) e
  | bankTransfer | adminCredit => trivial

theorem describes_giveBack (e : Entry) (method : Method) :
    (giveBack e method).Only Request.Describes := by
  cases method with
  | wallet =>
    exact (Wallet.describes_instant (by simp) _).bind fun leg => describes_completeBy e leg
  | card => exact describes_completeFreshly e _
  | cashOnDelivery =>
    refine Only.bind ((Only.request trivial).bind fun _ => .ofAttempt _) fun _ => ?_
    exact describes_completeFreshly _ _
  | bankTransfer | adminCredit => trivial

theorem describes_settleTo (t : Terms) (e : Entry) (status : Status)
    (reference notes : Option String) :
    (settleTo t e status reference notes).Only Request.Describes := by
  cases status with
  | completed =>
    rw [settleTo_completed]
    refine (looks_requireCompletable t e).describes_bind fun _ => ?_
    refine Only.bind ?_ fun e => ?_
    · cases notes with
      | some text => exact (Only.request trivial).bind fun _ => .ofAttempt _
      | none => trivial
    · cases reference with
      | some reference => exact describes_complete e reference
      | none => exact describes_completeFreshly e "MANUAL"
  | failed => exact describes_amend (c := .fail _) fun _ => nofun
  | cancelled => exact describes_amend (c := .cancel _) fun _ => nofun
  | pending => trivial

end Payment

/-! ## Calls -/

theorem Wallet.withdrawalNote_ne (account reason : String) :
    withdrawalNote account reason ≠ "" := by
  unfold withdrawalNote
  rw [Ne, String.append_eq_empty_iff, String.append_eq_empty_iff]
  rintro ⟨⟨hempty, -⟩, -⟩
  exact absurd hempty (by decide)

/-- What is left of a text by trimming is not empty, nor is what stands in for it. -/
theorem Text.getD_trimmed?_ne {s default : String} (h : default ≠ "") :
    (trimmed? s).getD default ≠ "" := by
  cases htrimmed : trimmed? s with
  | none => exact h
  | some text => exact (isTrimmed_of_trimmed? htrimmed).1

namespace Wallet

theorem describes_charge (t : Terms) (user : Nat) (amount : Decimal) (method : Method)
    (description : String) : (charge t user amount method description).Only Request.Describes := by
  refine (looks_requireId user "User").describes_bind fun _ => ?_
  refine Looks.describes_bind (.ofAttempt _) fun a => ?_
  refine Looks.describes_bind (.require _ _) fun _ => ?_
  refine Looks.describes_bind (.require _ _) fun _ => ?_
  refine (looks_requireUser user).describes_bind fun _ => (describes_acquire _).bind fun _ => ?_
  refine (looks_requireWithinDay t user .charge a).describes_bind fun _ => ?_
  exact describes_book_orAbandon (Text.getD_trimmed?_ne (by simp [toString])) fun e =>
    describes_fund e method

theorem describes_withdraw (t : Terms) (user : Nat) (amount : Decimal) (account reason : String) :
    (withdraw t user amount account reason).Only Request.Describes := by
  refine (looks_requireId user "User").describes_bind fun _ => ?_
  refine Looks.describes_bind (.ofAttempt _) fun a => ?_
  refine Looks.describes_bind (.require _ _) fun _ => ?_
  refine Looks.describes_bind (.require _ _) fun _ => ?_
  refine (looks_requireUser user).describes_bind fun _ => (describes_acquire _).bind fun _ => ?_
  refine (looks_requireCovered user a).describes_bind fun _ => ?_
  refine (looks_requireWithinDay t user .withdrawal a).describes_bind fun _ => ?_
  exact describes_book (withdrawalNote_ne account reason)

theorem describes_withdrawForPayment (user : Nat) (amount : Decimal) (reference : String) :
    (withdrawForPayment user amount reference).Only Request.Describes := by
  refine (looks_requireId user "User").describes_bind fun _ => ?_
  refine Looks.describes_bind (.ofAttempt _) fun a => ?_
  exact (describes_acquire _).bind fun _ => describes_debit user a reference

theorem describes_adminCredit (user : Nat) (amount : Decimal) (reason : String) (admin : Nat) :
    (adminCredit user amount reason admin).Only Request.Describes := by
  refine (looks_adjustment user amount reason admin).describes_bind fun a => ?_
  refine (looks_requireUser user).describes_bind fun _ => (describes_acquire _).bind fun _ => ?_
  exact describes_instant (by simp) _

theorem describes_adminDebit (user : Nat) (amount : Decimal) (reason : String) (admin : Nat) :
    (adminDebit user amount reason admin).Only Request.Describes := by
  refine (looks_adjustment user amount reason admin).describes_bind fun a => ?_
  refine (looks_requireUser user).describes_bind fun _ => (describes_acquire _).bind fun _ => ?_
  refine (looks_requireCovered user a).describes_bind fun _ => ?_
  exact describes_instant (by simp) _

end Wallet

namespace Payment

theorem describes_pay (t : Terms) (user order : Nat) (method : Method) :
    (pay t user order method).Only Request.Describes := by
  refine (looks_requireId user "User").describes_bind fun _ => ?_
  refine (looks_requireId order "Order").describes_bind fun _ => ?_
  refine Looks.describes_bind (.require _ _) fun _ => ?_
  refine (Wallet.looks_requireUser user).describes_bind fun _ => ?_
  refine Looks.describes_bind (.request trivial) fun found => ?_
  refine Looks.describes_bind (.ofAttempt _) fun o => ?_
  refine Looks.describes_bind (.require _ _) fun _ => ?_
  refine Looks.describes_bind (.require _ _) fun _ => ?_
  refine Looks.describes_bind (.ofAttempt _) fun a => (describes_acquire _).bind fun _ => ?_
  refine (looks_requireUnpaid order).describes_bind fun _ => ?_
  have hrest : (book ⟨user, some order, a, .payment, method, s!"Payment for order #{order}"⟩ >>=
      fun e => orAbandon e (collect e method)).Only Request.Describes :=
    describes_book_orAbandon (by simp) fun e => describes_collect e method
  split
  · exact (Wallet.looks_requireCovered user a).describes_bind fun _ => hrest
  · exact hrest

theorem describes_refund (payment : Nat) (reason : String) :
    (refund payment reason).Only Request.Describes := by
  refine (looks_requireId payment "Payment").describes_bind fun _ => ?_
  refine (looks_load payment).describes_bind fun seen => ?_
  refine Looks.describes_bind (.ofAttempt _) fun order => (describes_acquire _).bind fun _ => ?_
  refine (looks_load payment).describes_bind fun paid => ?_
  refine Looks.describes_bind (.require _ _) fun _ => ?_
  refine (looks_requireUnrefunded order).describes_bind fun _ => ?_
  exact describes_book_orAbandon (by simp) fun e => describes_giveBack e paid.method

theorem describes_settle (t : Terms) (entry : Nat) (status : Status)
    (reference notes : Option String) :
    (settle t entry status reference notes).Only Request.Describes := by
  refine (looks_requireId entry "Transaction").describes_bind fun _ => ?_
  refine Looks.describes_bind (.require _ _) fun _ => ?_
  refine (looks_load entry).describes_bind fun seen => (describes_acquire _).bind fun _ => ?_
  refine (looks_load entry).describes_bind fun e => ?_
  refine (vets_requirePending e).looks.describes_bind fun _ => ?_
  exact describes_settleTo t e status _ _

end Payment

theorem Call.describes (t : Terms) (c : Call) : (c.program t).Only Request.Describes := by
  cases c with
  | charge => exact Wallet.describes_charge _ _ _ _ _
  | withdraw => exact Wallet.describes_withdraw _ _ _ _ _
  | withdrawForPayment => exact Wallet.describes_withdrawForPayment _ _ _
  | adminCredit => exact Wallet.describes_adminCredit _ _ _ _
  | adminDebit => exact Wallet.describes_adminDebit _ _ _ _
  | pay => exact Payment.describes_pay _ _ _ _
  | refund => exact Payment.describes_refund _ _
  | settle => exact Payment.describes_settle _ _ _ _ _

/-! ## Ledgers -/

/-- Whatever happens to a ledger, its pending entries have descriptions. -/
theorem World.described_after {t : Terms} {w : World} {es : List Event} (hw : w.Calm)
    (hs : w.store.Described) : (w.after t es).store.Described := by
  induction es generalizing w with
  | nil => exact hs
  | cons e es ih =>
    cases e with
    | call c =>
      obtain ⟨hcalm, hstore⟩ := (c.describes t).described_run hw hs
      exact ih hcalm hstore
    | user | order | time => exact ih hw hs

end Paybook
