import Paybook.Csv.Table

/-! # Rows by column names

The first record of a table names its columns; the others are rows. A row is read by walking the
header from left to right, each name taking the next field. -/

namespace Paybook.Csv

/-- The columns that mean something. -/
inductive Column where
  | op
  | user
  | order
  | tx
  | amount
  | method
  | reference
  | status
  | note
deriving DecidableEq, Repr

namespace Column

/-- The columns in their usual order. -/
def all : List Column := [op, user, order, tx, amount, method, reference, status, note]

def name : Column → String
  | op => "op"
  | user => "user"
  | order => "order"
  | tx => "tx"
  | amount => "amount"
  | method => "method"
  | reference => "reference"
  | status => "status"
  | note => "note"

/-- The column of exactly this name. -/
def ofName? (s : String) : Option Column := all.find? fun c => c.name == s

theorem mem_all (c : Column) : c ∈ all := by cases c <;> decide

end Column

/-- The columns of a table from the left. An unknown one is `none`. -/
abbrev Header := List (Option Column)

/-- The header that a record names. One that is no text names nothing, and then the columns are
the usual ones. -/
def Header.ofRecord (r : Record) : Header :=
  match texts? r with
  | some names => names.map Column.ofName?
  | none => Column.all.map some

/-- A row: the text of each column, if it has one. -/
abbrev Row := Column → Option String

/-- The fields of a row with their columns. A known column without a field is empty; an unknown one
must have a field. Fields past the header are dropped. -/
def assign : Header → List String → Option (List (Column × Option String))
  | [], _ => some []
  | none :: _, [] => none
  | none :: columns, _ :: fields => assign columns fields
  | some c :: columns, fields => (assign columns fields.tail).map ((c, fields.head?) :: ·)

/-- The row of a record, unless a column is there twice. An empty text is none. -/
def Row.ofFields? (h : Header) (fields : List String) : Option Row := do
  let cells ← assign h fields
  if (cells.map Prod.fst).Nodup then
    some fun c => ((cells.lookup c).bind id).filter (· ≠ "")
  else none

end Paybook.Csv
