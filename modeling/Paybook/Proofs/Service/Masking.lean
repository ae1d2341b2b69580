import Mathlib.Data.List.Forall2
import Paybook.Proofs.Program.Leads
import Paybook.Proofs.Service.Ledger
import Paybook.Proofs.Text.Trimming

/-! # Bank accounts

A withdrawal depends on its bank account only through the last four characters. All accounts that
end alike make it the same program, which asks, fails, stores and returns the same in every world,
and so do whole histories in which withdrawals differ by such accounts. The four characters
themselves are shown: `World.accounts_masked`. -/

namespace Paybook

open Program Text

/-! ## What programs return -/

/-- Whether whatever a program returns, in any world, is as said. -/
def Program.Returns {α : Type} (p : Program α) (P : α → Prop) : Prop :=
  ∀ w a, (p.run w).1 = .returned a → P a

/-- A program returns what its last part returns. -/
theorem Program.Returns.bind {α β : Type} {p : Program α} {f : α → Program β} {P : β → Prop}
    (h : ∀ a, (f a).Returns P) : (p >>= f).Returns P := by
  intro w b hrun
  change ((p.bind f).run w).1 = _ at hrun
  rw [run_bind] at hrun
  rcases hp : p.run w with ⟨o, w'⟩
  rw [hp] at hrun
  cases o with
  | returned a => exact h a w' b hrun
  | failed | overflowed => cases hrun

/-- Booking returns the entry of the draft, whatever troubles the store has. -/
theorem Program.returns_book {d : Draft} {P : Entry → Prop} (h : ∀ id now, P (.ofDraft id d now)) :
    (book d).Returns P := by
  intro w e hrun
  change ((ofAttempt (w.answer (.insert d)).1).run _).1 = _ at hrun
  have hinserted : (w.storage.insert d w.now).1 = .ok e := run_ofAttempt_eq_returned.1 hrun
  unfold TroubledStore.insert at hinserted
  split at hinserted
  · cases hinserted
  · cases hinserted
    exact h _ _

namespace Wallet

/-! ## Accounts that end alike -/

/-- The last four characters of an account without blank ends, beginning with the last one; all of
them if there are fewer. -/
def lastFour (account : String) : List Char := (trimmed account.toList).reverse.take 4

variable {a b : String}

theorem maskAccount_eq (account : String) :
    maskAccount account = "****" ++ String.ofList (lastFour account).reverse := by
  rw [maskAccount, lastFour, List.take_reverse, List.reverse_reverse]

theorem maskAccount_eq_iff : maskAccount a = maskAccount b ↔ lastFour a = lastFour b := by
  rw [maskAccount_eq, maskAccount_eq, String.append_right_inj, String.ofList_inj,
    List.reverse_inj]

/-- Nothing is shown of an account only if all of it is blank. -/
theorem lastFour_eq_nil_iff {account : String} :
    lastFour account = [] ↔ isAllBlank account = true := by
  simp [lastFour, isAllBlank, trimmed_eq_nil_iff]

theorem withdrawalNote_eq_iff {reason : String} :
    withdrawalNote a reason = withdrawalNote b reason ↔ lastFour a = lastFour b := by
  unfold withdrawalNote
  rw [String.append_left_inj, String.append_right_inj]
  exact maskAccount_eq_iff

variable {t : Terms} {user : Nat} {amount : Decimal} {reason : String}

/-- Accounts that end alike make withdrawals the same program, down to every request and failure. -/
theorem withdraw_eq (h : lastFour a = lastFour b) :
    withdraw t user amount a reason = withdraw t user amount b reason := by
  have hblank : isAllBlank a = isAllBlank b := by
    rw [Bool.eq_iff_iff, ← lastFour_eq_nil_iff, ← lastFour_eq_nil_iff, h]
  rw [withdraw, withdraw, hblank, withdrawalNote_eq_iff.2 h]

theorem returns_withdraw (account : String) : (withdraw t user amount account reason).Returns
    fun e => e.description = withdrawalNote account reason := by
  refine .bind fun _ => .bind fun _ => .bind fun _ => .bind fun _ => ?_
  refine .bind fun _ => .bind fun _ => .bind fun _ => .bind fun _ => ?_
  exact returns_book fun _ _ => rfl

end Wallet

/-! ## Histories -/

/-- Whether events are the same, but for bank accounts that end alike. -/
inductive Event.Masked : Event → Event → Prop
  | same (e : Event) : Masked e e
  | withdraw {a b : String} (user : Nat) (amount : Decimal) (reason : String)
      (alike : Wallet.lastFour a = Wallet.lastFour b) :
      Masked (.call (.withdraw user amount a reason)) (.call (.withdraw user amount b reason))

namespace World

variable {t : Terms} {es es' : List Event}

theorem after_eq_of_masked (h : List.Forall₂ Event.Masked es es') (w : World) :
    w.after t es = w.after t es' := by
  induction h generalizing w with
  | nil => rfl
  | @cons e e' _ _ he _ ih =>
    have hfirst : e.after t w = e'.after t w := by
      cases he with
      | same => rfl
      | withdraw _ _ _ alike =>
        exact congrArg (fun p => (p.run w).2) (Wallet.withdraw_eq alike)
    change World.after t (e.after t w) _ = _
    rw [hfirst]
    exact ih _

/-- Histories in which bank accounts are replaced by others that end alike lead to the same world.
There a withdrawal to either of two accounts that end alike is the same program, has the same result
and leaves the same world, and withdrawals to accounts that end differently never return the same
entry. -/
theorem accounts_masked (t : Terms) (w : World) (es es' : List Event)
    (h : List.Forall₂ Event.Masked es es') (user : Nat) (amount : Decimal) (reason a b : String) :
    let v := w.after t es
    let v' := w.after t es'
    let c := Call.withdraw user amount a reason
    let c' := Call.withdraw user amount b reason
    v = v' ∧
    (Wallet.lastFour a = Wallet.lastFour b →
      c.program t = c'.program t ∧ c.run t v = c'.run t v') ∧
    ∀ e, (c.run t v).1 = .returned e → (c'.run t v').1 = .returned e →
      Wallet.lastFour a = Wallet.lastFour b := by
  intro v v' c c'
  have hv : v = v' := after_eq_of_masked h w
  refine ⟨hv, fun halike => ?_, fun e he he' => ?_⟩
  · have hprogram : c.program t = c'.program t := Wallet.withdraw_eq halike
    exact ⟨hprogram, by rw [Call.run, Call.run, hprogram, hv]⟩
  · have hshown := Wallet.returns_withdraw a v e he
    have hshown' := Wallet.returns_withdraw b v' e he'
    exact Wallet.withdrawalNote_eq_iff.1 (hshown.symm.trans hshown')

/-- Two histories with different accounts, and then a withdrawal to an account of four characters
and to a longer one between blank characters. -/
theorem accounts_masked_of_four_characters :
    let w := World.opening {} 0 ⟨0, 0⟩ fun _ => 0
    let events (account : String) : List Event := [.user ⟨1, "Ada"⟩,
      .call (.adminCredit 1 (.ofWord 100) "gift" 1),
      .call (.withdraw 1 (.ofWord 20) account "")]
    let v := w.after {} (events "NL91ABNA0417164300")
    let v' := w.after {} (events "4300 4300 ")
    let r := (Call.withdraw 1 (.ofWord 20) "日本銀行" "rent").run {} v
    let r' := (Call.withdraw 1 (.ofWord 20) " 第二日本銀行 " "rent").run {} v'
    List.Forall₂ Event.Masked (events "NL91ABNA0417164300") (events "4300 4300 ") ∧
    Wallet.lastFour "日本銀行" = Wallet.lastFour " 第二日本銀行 " ∧ v = v' ∧ r = r' ∧
    r.2.store.entries.map Entry.description = ["Admin credit by admin #1: gift",
      "Withdrawal to bank account ****4300", "Withdrawal to bank account ****日本銀行: rent"] := by
  intro w events v v' r r'
  have hevents : List.Forall₂ Event.Masked (events "NL91ABNA0417164300") (events "4300 4300 ") :=
    .cons (.same _) (.cons (.same _) (.cons (.withdraw 1 _ "" (by decide +kernel)) .nil))
  have halike : Wallet.lastFour "日本銀行" = Wallet.lastFour " 第二日本銀行 " := by decide +kernel
  obtain ⟨hv, hr, -⟩ := accounts_masked {} w _ _ hevents 1 (.ofWord 20) "rent" "日本銀行" " 第二日本銀行 "
  exact ⟨hevents, halike, hv, (hr halike).2, by decide +kernel⟩

end World

end Paybook
