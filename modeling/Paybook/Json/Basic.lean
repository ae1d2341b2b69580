import Paybook.Text.Numeral

/-! # JSON values

A value keeps what was written as far as a reader can tell it apart: the digits of a number, the
order of the members of an object and members of one name. -/

namespace Paybook

/-- A number as its text has it. The places are empty when there is no point. -/
structure Json.Numeral where
  negative : Bool
  whole : List Char
  places : List Char
  power : Option (Bool × List Char)
deriving DecidableEq, Repr

/-- A JSON value. A string is `none` when its escapes spell no Unicode text. -/
inductive Json where
  | null
  | bool (b : Bool)
  | number (n : Json.Numeral)
  | string (s : Option String)
  | array (values : List Json)
  | object (members : List (Option String × Json))
deriving Repr

namespace Json

instance : Inhabited Json := ⟨.null⟩

/-- A whole number, written without point and power. -/
def Numeral.ofNat (n : Nat) : Numeral := ⟨false, Text.writeNat n, [], none⟩

def ofNat (n : Nat) : Json := .number (.ofNat n)

def ofString (s : String) : Json := .string (some s)

/-- The value, or `null` when there is none. -/
def ofOption {α : Type} (f : α → Json) : Option α → Json
  | some a => f a
  | none => .null

/-- An object with the given members. -/
def ofMembers (members : List (String × Json)) : Json :=
  .object (members.map fun (name, value) => (some name, value))

end Json

end Paybook
