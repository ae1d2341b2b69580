import Paybook.Json.Basic

/-! # Records in JSON

A record is an object with a member for each of its fields, or an array of its fields in their
order. Members of other names are skipped; a field may be there only once. -/

namespace Paybook.Json

/-- The fields that are there, by their names. The arrays of a record may end early. -/
def fields? (names : List String) : Json → Option (List (String × Json))
  | .object members => do
    let named ← members.mapM fun (name, value) => name.map (·, value)
    let known := named.filter fun (name, _) => names.contains name
    if (known.map Prod.fst).Nodup then some known else none
  | .array values => if values.length ≤ names.length then some (names.zip values) else none
  | _ => none

/-- The fields that are there. An array must have all of them. -/
def allFields? (names : List String) (v : Json) : Option (List (String × Json)) :=
  match v with
  | .array values => if values.length = names.length then fields? names v else none
  | _ => fields? names v

/-- A field that must be there. -/
def required? {α : Type} (fields : List (String × Json)) (name : String) (f : Json → Option α) :
    Option α :=
  (fields.lookup name).bind f

/-- A field with a value for when it is not there. -/
def optional? {α : Type} (fields : List (String × Json)) (name : String) (default : α)
    (f : Json → Option α) : Option α :=
  match fields.lookup name with
  | some v => f v
  | none => some default

end Paybook.Json
