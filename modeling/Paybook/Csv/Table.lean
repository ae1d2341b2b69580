import Paybook.Text.Spelling
import Paybook.Text.Utf8

/-! # Comma-separated tables

A table is read byte by byte. A record ends at a line feed or a carriage return, and lines without
a byte are no records. A field that starts with a quotation mark is quoted: it ends at the next
mark that is not doubled, and what follows up to the comma is appended. A mark elsewhere is an
ordinary byte. -/

namespace Paybook.Csv

/-- A record: the bytes of its fields. -/
abbrev Record := List (List UInt8)

def comma : UInt8 := 0x2c
def quote : UInt8 := 0x22
def lineFeed : UInt8 := 0x0a
def carriageReturn : UInt8 := 0x0d

/-- Where in a table the scanner stands. -/
inductive Place where
  /-- Before a record. -/
  | outside
  /-- Before a field. -/
  | fieldStart
  /-- In a field that is not quoted, or behind the quoted part of one. -/
  | plain
  /-- In a quoted field. -/
  | quoted
  /-- Behind a quotation mark in a quoted field. -/
  | mark
deriving DecidableEq, Repr

/-- The scanner: its place, the bytes of the field so far and the fields of the record so far, both
last one first. -/
structure Scanner where
  place : Place := .outside
  field : List UInt8 := []
  fields : List (List UInt8) := []
deriving DecidableEq, Repr

namespace Scanner

/-- The scanner at the start of a table. -/
def start : Scanner := {}

/-- The record with the field so far as its last one. -/
def record (s : Scanner) : Record := (s.field.reverse :: s.fields).reverse

/-- The scanner behind one more byte of the field. -/
def push (s : Scanner) (b : UInt8) (place : Place) : Scanner :=
  { s with place := place, field := b :: s.field }

/-- The scanner behind the comma after a field. -/
def nextField (s : Scanner) : Scanner := ⟨.fieldStart, [], s.field.reverse :: s.fields⟩

/-- The scanner behind a byte that ends quoting if it is not a mark: in a field that goes on. -/
def plainStep (s : Scanner) (b : UInt8) : Scanner × Option Record :=
  if b = comma then (s.nextField, none)
  else if b = lineFeed ∨ b = carriageReturn then (start, some s.record)
  else (s.push b .plain, none)

/-- The scanner behind a byte, and the record that the byte ends. -/
def step (s : Scanner) (b : UInt8) : Scanner × Option Record :=
  match s.place with
  | .outside =>
    if b = lineFeed ∨ b = carriageReturn then (start, none)
    else if b = quote then ({ s with place := .quoted }, none)
    else s.plainStep b
  | .fieldStart => if b = quote then ({ s with place := .quoted }, none) else s.plainStep b
  | .plain => s.plainStep b
  | .quoted => if b = quote then ({ s with place := .mark }, none) else (s.push b .quoted, none)
  | .mark => if b = quote then (s.push b .quoted, none) else s.plainStep b

/-- The record that the end of the table ends. A quoted field may be open. -/
def finish (s : Scanner) : Option Record :=
  match s.place with
  | .outside => none
  | _ => some s.record

/-- The records of the rest of a table. -/
def records (s : Scanner) : List UInt8 → List Record
  | [] => s.finish.toList
  | b :: bs =>
    match s.step b with
    | (s, some r) => r :: records s bs
    | (s, none) => records s bs

end Scanner

/-- The bytes of a table without the byte order mark in front of it. -/
def withoutMark : List UInt8 → List UInt8
  | 0xef :: 0xbb :: 0xbf :: bs => bs
  | bs => bs

/-- The records of a table. -/
def records (bs : List UInt8) : List Record := Scanner.start.records (withoutMark bs)

/-- The texts of the fields of a record, trimmed, if all of them are text. -/
def texts? (r : Record) : Option (List String) :=
  r.mapM fun field => (Text.textOfBytes? field).map Text.trim

end Paybook.Csv
