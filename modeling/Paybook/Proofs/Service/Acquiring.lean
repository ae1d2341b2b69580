import Paybook.Proofs.Program.Acquires
import Paybook.Proofs.Service.Phases
import Paybook.Service.Call

/-! # Calls take locks once

Every call looks at what it needs to know its keys, acquires them, and takes no lock afterwards:
what it does for the wallet under the lock of an order happens under the lock of the user that it
took together with it. -/

namespace Paybook

open Program

/-! ## Wallets -/

namespace Wallet

theorem acquiresOnce_charge (t : Terms) (user : Nat) (amount : Decimal) (method : Method)
    (description : String) : (charge t user amount method description).AcquiresOnce := by
  refine (looks_requireId user "User").acquiresOnce_bind fun _ => ?_
  refine Looks.acquiresOnce_bind (.ofAttempt _) fun a => ?_
  refine Looks.acquiresOnce_bind (.require _ _) fun _ => ?_
  refine Looks.acquiresOnce_bind (.require _ _) fun _ => ?_
  refine (looks_requireUser user).acquiresOnce_bind fun _ => ?_
  refine .now [.user user] ?_
  exact (looks_requireWithinDay t user .charge a).lockFree.bind fun _ =>
    lockFree_book_orAbandon _ fun e => lockFree_fund e method

theorem acquiresOnce_withdraw (t : Terms) (user : Nat) (amount : Decimal)
    (account reason : String) : (withdraw t user amount account reason).AcquiresOnce := by
  refine (looks_requireId user "User").acquiresOnce_bind fun _ => ?_
  refine Looks.acquiresOnce_bind (.ofAttempt _) fun a => ?_
  refine Looks.acquiresOnce_bind (.require _ _) fun _ => ?_
  refine Looks.acquiresOnce_bind (.require _ _) fun _ => ?_
  refine (looks_requireUser user).acquiresOnce_bind fun _ => ?_
  refine .now [.user user] ?_
  refine (looks_requireCovered user a).lockFree.bind fun _ => ?_
  exact (looks_requireWithinDay t user .withdrawal a).lockFree.bind fun _ => lockFree_book _

theorem acquiresOnce_withdrawForPayment (user : Nat) (amount : Decimal) (reference : String) :
    (withdrawForPayment user amount reference).AcquiresOnce := by
  refine (looks_requireId user "User").acquiresOnce_bind fun _ => ?_
  refine Looks.acquiresOnce_bind (.ofAttempt _) fun a => ?_
  exact .now [.user user] (lockFree_debit user a reference)

theorem acquiresOnce_adminCredit (user : Nat) (amount : Decimal) (reason : String) (admin : Nat) :
    (adminCredit user amount reason admin).AcquiresOnce := by
  refine (looks_adjustment user amount reason admin).acquiresOnce_bind fun a => ?_
  refine (looks_requireUser user).acquiresOnce_bind fun _ => ?_
  exact .now [.user user] (lockFree_instant _ _)

theorem acquiresOnce_adminDebit (user : Nat) (amount : Decimal) (reason : String) (admin : Nat) :
    (adminDebit user amount reason admin).AcquiresOnce := by
  refine (looks_adjustment user amount reason admin).acquiresOnce_bind fun a => ?_
  refine (looks_requireUser user).acquiresOnce_bind fun _ => ?_
  refine .now [.user user] ?_
  exact (looks_requireCovered user a).lockFree.bind fun _ => lockFree_instant _ _

end Wallet

/-! ## Payments -/

namespace Payment

theorem acquiresOnce_pay (t : Terms) (user order : Nat) (method : Method) :
    (pay t user order method).AcquiresOnce := by
  refine (looks_requireId user "User").acquiresOnce_bind fun _ => ?_
  refine (looks_requireId order "Order").acquiresOnce_bind fun _ => ?_
  refine Looks.acquiresOnce_bind (.require _ _) fun _ => ?_
  refine (Wallet.looks_requireUser user).acquiresOnce_bind fun _ => ?_
  refine Looks.acquiresOnce_bind (.request trivial) fun found => ?_
  refine Looks.acquiresOnce_bind (.ofAttempt _) fun o => ?_
  refine Looks.acquiresOnce_bind (.require _ _) fun _ => ?_
  refine Looks.acquiresOnce_bind (.require _ _) fun _ => ?_
  refine Looks.acquiresOnce_bind (.ofAttempt _) fun a => ?_
  refine .now [.order order, .user user] ?_
  refine (looks_requireUnpaid order).lockFree.bind fun _ => ?_
  have hbook : ∀ text, (book ⟨user, some order, a, .payment, method, text⟩ >>= fun payment =>
      orAbandon payment (collect payment method)).LockFree := fun _ =>
    lockFree_book_orAbandon _ fun e => lockFree_collect e method
  split
  · exact (Wallet.looks_requireCovered user a).lockFree.bind fun _ => hbook _
  · exact hbook _

theorem acquiresOnce_refund (payment : Nat) (reason : String) :
    (refund payment reason).AcquiresOnce := by
  refine (looks_requireId payment "Payment").acquiresOnce_bind fun _ => ?_
  refine (looks_load payment).acquiresOnce_bind fun seen => ?_
  refine Looks.acquiresOnce_bind (.ofAttempt _) fun order => ?_
  refine .now [.order order, .user seen.user] ?_
  refine (looks_load payment).lockFree.bind fun paid => ?_
  refine Only.bind (.require _ _) fun _ => ?_
  refine (looks_requireUnrefunded order).lockFree.bind fun _ => ?_
  exact lockFree_book_orAbandon _ fun e => lockFree_giveBack e paid.method

theorem acquiresOnce_settle (t : Terms) (entry : Nat) (status : Status)
    (reference notes : Option String) :
    (settle t entry status reference notes).AcquiresOnce := by
  refine (looks_requireId entry "Transaction").acquiresOnce_bind fun _ => ?_
  refine Looks.acquiresOnce_bind (.require _ _) fun _ => ?_
  refine (looks_load entry).acquiresOnce_bind fun seen => ?_
  refine .now (settlementKeys seen) ?_
  refine (looks_load entry).lockFree.bind fun e => ?_
  exact Only.bind (.ofAttempt _) fun _ => lockFree_settleTo t e status _ _

end Payment

/-- Every call takes locks at one place only. -/
theorem Call.acquiresOnce (t : Terms) (c : Call) : (c.program t).AcquiresOnce := by
  cases c with
  | charge => exact Wallet.acquiresOnce_charge t _ _ _ _
  | withdraw => exact Wallet.acquiresOnce_withdraw t _ _ _ _
  | withdrawForPayment => exact Wallet.acquiresOnce_withdrawForPayment _ _ _
  | adminCredit => exact Wallet.acquiresOnce_adminCredit _ _ _ _
  | adminDebit => exact Wallet.acquiresOnce_adminDebit _ _ _ _
  | pay => exact Payment.acquiresOnce_pay t _ _ _
  | refund => exact Payment.acquiresOnce_refund _ _
  | settle => exact Payment.acquiresOnce_settle t _ _ _ _

end Paybook
