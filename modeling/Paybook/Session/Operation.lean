import Paybook.Csv.Cell
import Paybook.Csv.Row
import Paybook.Directory
import Paybook.Entry.Labels
import Paybook.Failure

/-! # Operations of a session

Each row of a session's table is one operation: a registration or a call. A row that cannot be read
at all is a failure of the table; one that lacks what its operation needs is an invalid argument. -/

namespace Paybook

/-- What a row asks for. -/
inductive OperationSort where
  | user
  | order
  | charge
  | withdraw
  | adminCredit
  | adminDebit
  | pay
  | refund
  | settle
deriving DecidableEq, Repr

namespace OperationSort

def all : List OperationSort :=
  [user, order, charge, withdraw, adminCredit, adminDebit, pay, refund, settle]

/-- The name in the column `op`. -/
def name : OperationSort → String
  | user => "user"
  | order => "order"
  | charge => "charge"
  | withdraw => "withdraw"
  | adminCredit => "admin_credit"
  | adminDebit => "admin_debit"
  | pay => "pay"
  | refund => "refund"
  | settle => "settle"

/-- The name in messages. -/
def title : OperationSort → String
  | user => "User"
  | order => "Order"
  | charge => "Charge"
  | withdraw => "Withdraw"
  | adminCredit => "AdminCredit"
  | adminDebit => "AdminDebit"
  | pay => "Pay"
  | refund => "Refund"
  | settle => "Settle"

/-- The operation of exactly this name. -/
def ofName? (s : String) : Option OperationSort := all.find? fun o => o.name == s

theorem mem_all (o : OperationSort) : o ∈ all := by cases o <;> decide

end OperationSort

/-- An operation of a session. -/
inductive Operation where
  | user (id : Nat) (name : String)
  | order (order : Order)
  | charge (user : Nat) (amount : Decimal) (method : Method) (description : String)
  | withdraw (user : Nat) (amount : Decimal) (account reason : String)
  | adminCredit (user : Nat) (amount : Decimal) (reason : String)
  | adminDebit (user : Nat) (amount : Decimal) (reason : String)
  | pay (user order : Nat) (method : Method)
  | refund (payment : Nat) (reason : String)
  | settle (entry : Nat) (status : Status) (reference notes : Option String)
deriving DecidableEq, Repr

/-- The cells of a row, as the values that they write. -/
structure Cells where
  sort : OperationSort
  user : Option Nat
  order : Option Nat
  tx : Option Nat
  amount : Option Decimal
  method : Option String
  reference : Option String
  status : Option String
  note : Option String
deriving DecidableEq, Repr

namespace Cells

/-- The value of a cell that may be empty. -/
def value? {α : Type} (read : String → Option α) : Option String → Option (Option α)
  | none => some none
  | some s => (read s).map some

/-- The cells of a row, if every one is readable and the operation is known. -/
def ofRow? (row : Csv.Row) : Option Cells := do
  return {
    sort := ← (row .op).bind OperationSort.ofName?
    user := ← value? Csv.readId? (row .user)
    order := ← value? Csv.readId? (row .order)
    tx := ← value? Csv.readId? (row .tx)
    amount := ← value? Csv.readAmount? (row .amount)
    method := row .method
    reference := row .reference
    status := row .status
    note := row .note }

/-- The value of a cell that the operation needs. -/
def need {α : Type} (c : Cells) (column : Csv.Column) (value : Option α) : Attempt α :=
  match value with
  | some a => .ok a
  | none => .error (.invalidArgument
      (c.sort.title ++ " operation requires the `" ++ column.name ++ "` column"))

/-- The operation of the cells. Cells that it does not need are not looked at. -/
def operation (c : Cells) : Attempt Operation :=
  let note := c.note.getD ""
  match c.sort with
  | .user => do
    let user ← c.need .user c.user
    return .user user (c.note.getD s!"user-{user}")
  | .order => do
    let order ← c.need .order c.order
    let user ← c.need .user c.user
    let total ← c.need .amount c.amount
    return .order ⟨order, user, total, c.status.getD "PENDING"⟩
  | .charge => do
    let user ← c.need .user c.user
    let amount ← c.need .amount c.amount
    let method ← Method.read (← c.need .method c.method)
    return .charge user amount method note
  | .withdraw => do
    let user ← c.need .user c.user
    let amount ← c.need .amount c.amount
    let account ← c.need .reference c.reference
    return .withdraw user amount account note
  | .adminCredit => do
    let user ← c.need .user c.user
    let amount ← c.need .amount c.amount
    return .adminCredit user amount note
  | .adminDebit => do
    let user ← c.need .user c.user
    let amount ← c.need .amount c.amount
    return .adminDebit user amount note
  | .pay => do
    let user ← c.need .user c.user
    let order ← c.need .order c.order
    let method ← Method.read (← c.need .method c.method)
    return .pay user order method
  | .refund => do
    let payment ← c.need .tx c.tx
    return .refund payment note
  | .settle => do
    let entry ← c.need .tx c.tx
    let status ← Status.read (← c.need .status c.status)
    return .settle entry status c.reference c.note

end Cells

namespace Operation

/-- The failure of a row that is not readable. -/
def unreadable : Failure := .table "unreadable row"

/-- The operation of a record under a header. -/
def ofRecord (h : Csv.Header) (r : Csv.Record) : Attempt Operation :=
  match (Csv.texts? r).bind (Csv.Row.ofFields? h) |>.bind Cells.ofRow? with
  | some cells => cells.operation
  | none => .error unreadable

/-- The operations of a table, one for each record after the first. -/
def ofTable (bs : List UInt8) : List (Attempt Operation) :=
  match Csv.records bs with
  | [] => []
  | h :: rs => rs.map (ofRecord (.ofRecord h))

end Operation

end Paybook
