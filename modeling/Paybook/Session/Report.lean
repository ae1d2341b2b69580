import Paybook.Entry.Summary

/-! # Reports

The report of a session has a line for each user. Its decimals are written without trailing
zeros. -/

namespace Paybook

/-- What a report says of a user. -/
structure ReportLine where
  user : Nat
  balance : Decimal
  entries : Nat
  completed : Nat
  pending : Nat
  failed : Nat
  spent : Decimal
  refunded : Decimal
  netSpent : Decimal
  successRate : Decimal
deriving DecidableEq, Repr

namespace ReportLine

/-- The line of a user with a balance and a history. -/
def ofSummary (user : Nat) (balance : Balance) (summary : OrderSummary) : ReportLine where
  user := user
  balance := balance.value.normalize
  entries := summary.total
  completed := summary.completed
  pending := summary.pending
  failed := summary.failed
  spent := summary.spent.normalize
  refunded := summary.refunded.normalize
  netSpent := summary.netSpent.normalize
  successRate := summary.successRate.normalize

/-- The names of the columns. -/
def header : List String :=
  ["user", "balance", "transactions", "completed", "pending", "failed", "total_spent",
   "total_refunded", "net_spent", "success_rate"]

/-- The fields of a line. -/
def fields (l : ReportLine) : List String :=
  [toString l.user, toString l.balance, toString l.entries, toString l.completed,
   toString l.pending, toString l.failed, toString l.spent, toString l.refunded,
   toString l.netSpent, toString l.successRate]

/-! ## Writing -/

/-- Whether a field is written between quotation marks. -/
def needsMarks (field : String) : Bool :=
  field.toList.any fun c => c == ',' || c == '"' || c == '\n' || c == '\r'

/-- A field as it is written. Between quotation marks, a mark is doubled. -/
def writeField (field : String) : String :=
  if needsMarks field then
    let doubled := field.toList.flatMap fun c => if c = '"' then ['"', '"'] else [c]
    String.ofList ('"' :: (doubled ++ ['"']))
  else field

/-- A line of text: the fields with commas between them, and a line feed. -/
def writeLine (fields : List String) : String :=
  String.intercalate "," (fields.map writeField) ++ "\n"

/-- A report as far as it is written. -/
structure Page where
  text : String := ""
  /-- Whether the header is written. -/
  headed : Bool := false
deriving DecidableEq, Repr

/-- Writes one more line. The header is written together with the first one. -/
def Page.add (p : Page) (l : ReportLine) : Page where
  text := (if p.headed then p.text else p.text ++ writeLine header) ++ writeLine l.fields
  headed := true

/-- The text of a report, which is written line by line. -/
def write (ls : List ReportLine) : String := (ls.foldl Page.add {}).text

end ReportLine

end Paybook
