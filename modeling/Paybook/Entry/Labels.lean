import Paybook.Failure
import Paybook.Text.Spelling

/-! # Kinds, statuses and methods

The three labels of an entry have fixed names. They are read in any case of their letters and with
blanks around them. -/

namespace Paybook

/-- What an entry books. -/
inductive EntryKind where
  /-- Money for an order. -/
  | payment
  /-- Money for an order, given back. -/
  | refund
  /-- Money put into a wallet. -/
  | charge
  /-- Money taken out of a wallet. -/
  | withdrawal
deriving DecidableEq, Repr

/-- How far an entry has come. -/
inductive Status where
  | pending
  | completed
  | failed
  | cancelled
deriving DecidableEq, Repr

/-- How the money moves. -/
inductive Method where
  | wallet
  | card
  | cashOnDelivery
  | bankTransfer
  | adminCredit
deriving DecidableEq, Repr

/-- Reads one of some named values. `what` is what a text that names none of them should have
named. -/
def readLabel {α : Type} (what : String) (name : α → String) (all : List α) (s : String) :
    Attempt α :=
  match Text.trimmed? s with
  | none => .error (.invalidArgument s!"{what} is required")
  | some wanted =>
    match all.find? fun a => Text.sameCaseless (name a) wanted with
    | some a => .ok a
    | none => .error (.invalidArgument s!"Unknown {what}: {wanted}")

namespace EntryKind

def all : List EntryKind := [payment, refund, charge, withdrawal]

def name : EntryKind → String
  | payment => "PAYMENT"
  | refund => "REFUND"
  | charge => "WALLET_CHARGE"
  | withdrawal => "WALLET_WITHDRAWAL"

/-- The kinds that move money of a wallet. -/
def ofWallet : List EntryKind := [charge, withdrawal]

/-- The kinds that belong to an order. -/
def ofOrder : List EntryKind := [payment, refund]

def read (s : String) : Attempt EntryKind := readLabel "transaction type" name all s

/-- The kind of exactly this name. -/
def ofName? (s : String) : Option EntryKind := all.find? fun k => k.name == s

theorem mem_all (k : EntryKind) : k ∈ all := by cases k <;> decide

instance : ToString EntryKind := ⟨name⟩

end EntryKind

namespace Status

def all : List Status := [pending, completed, failed, cancelled]

def name : Status → String
  | pending => "PENDING"
  | completed => "COMPLETED"
  | failed => "FAILED"
  | cancelled => "CANCELLED"

/-- Every status but `pending` is final. -/
def isFinal : Status → Bool
  | pending => false
  | _ => true

def read (s : String) : Attempt Status := readLabel "transaction status" name all s

/-- The status of exactly this name. -/
def ofName? (s : String) : Option Status := all.find? fun k => k.name == s

theorem mem_all (s : Status) : s ∈ all := by cases s <;> decide

instance : ToString Status := ⟨name⟩

end Status

namespace Method

def all : List Method := [wallet, card, cashOnDelivery, bankTransfer, adminCredit]

def name : Method → String
  | wallet => "WALLET"
  | card => "CARD"
  | cashOnDelivery => "CASH_ON_DELIVERY"
  | bankTransfer => "BANK_TRANSFER"
  | adminCredit => "ADMIN_CREDIT"

def read (s : String) : Attempt Method := readLabel "payment method" name all s

/-- The method of exactly this name. -/
def ofName? (s : String) : Option Method := all.find? fun k => k.name == s

theorem mem_all (m : Method) : m ∈ all := by cases m <;> decide

instance : ToString Method := ⟨name⟩

end Method

end Paybook
