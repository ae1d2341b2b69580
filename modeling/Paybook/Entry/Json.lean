import Paybook.Entry.Basic
import Paybook.Json.Number
import Paybook.Json.Parser
import Paybook.Json.Printer
import Paybook.Json.Record
import Paybook.Time.Rfc3339

/-! # Entries in JSON

An entry is written as a record of thirteen fields. Amounts are strings, so that they keep their
scale, and times are written in RFC 3339. -/

namespace Paybook

open Time

namespace Amount

/-- An amount that a decimal in JSON writes; it must be positive. -/
def ofJson? (v : Json) : Option Amount := v.toDecimal?.bind ofDecimal?

def toJson (a : Amount) : Json := .ofString (toString a.value)

end Amount

namespace Entry

/-- The names of the fields in the order in which they are written. -/
def fieldNames : List String :=
  ["id", "user_id", "order_id", "amount", "type", "status", "payment_method", "reference_id",
   "description", "created_at", "updated_at", "processed_at", "version"]

def timeToJson (t : Instant) : Json := .ofString t.toRfc3339

def timeOfJson? (v : Json) : Option Instant := v.toText?.bind Instant.parse?

/-- The record of an entry. -/
def toJson (e : Entry) : Json :=
  .ofMembers (fieldNames.zip
    [.ofNat e.id, .ofNat e.user, .ofOption .ofNat e.order, e.amount.toJson,
     .ofString e.kind.name, .ofString e.status.name, .ofString e.method.name,
     .ofOption .ofString e.reference, .ofString e.description, timeToJson e.createdAt,
     timeToJson e.updatedAt, .ofOption timeToJson e.processedAt, .ofNat e.version])

/-- The entry that a record writes. The fields that may be `null` may also be missing, but not from
an array. -/
def ofJson? (v : Json) : Option Entry := do
  let fields ← v.allFields? fieldNames
  return {
    id := ← Json.required? fields "id" Json.toWord?
    user := ← Json.required? fields "user_id" Json.toWord?
    order := ← Json.optional? fields "order_id" none (Json.nullable? Json.toWord?)
    amount := ← Json.required? fields "amount" Amount.ofJson?
    kind := ← Json.required? fields "type" fun v => v.name?.bind EntryKind.ofName?
    status := ← Json.required? fields "status" fun v => v.name?.bind Status.ofName?
    method := ← Json.required? fields "payment_method" fun v => v.name?.bind Method.ofName?
    reference := ← Json.optional? fields "reference_id" none (Json.nullable? Json.toText?)
    description := ← Json.required? fields "description" Json.toText?
    createdAt := ← Json.required? fields "created_at" timeOfJson?
    updatedAt := ← Json.required? fields "updated_at" timeOfJson?
    processedAt := ← Json.optional? fields "processed_at" none (Json.nullable? timeOfJson?)
    version := ← Json.required? fields "version" Json.toWord? }

/-- The text of the record of an entry. -/
def render (e : Entry) : String := e.toJson.render

/-- The entry whose record a text writes. -/
def parse? (s : String) : Option Entry := (Json.parse? s).bind ofJson?

end Entry

end Paybook
