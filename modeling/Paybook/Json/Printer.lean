import Paybook.Json.Basic

/-! # Writing JSON

Values are written without blanks. Strings escape the quotation mark, the backslash and the control
characters, the latter by a letter where they have one. -/

namespace Paybook.Json

open Text

/-- The written form of a character inside of a string. -/
def escaped (c : Char) : List Char :=
  match c with
  | '"' => ['\\', '"']
  | '\\' => ['\\', '\\']
  | '\x08' => ['\\', 'b']
  | '\x0c' => ['\\', 'f']
  | '\n' => ['\\', 'n']
  | '\r' => ['\\', 'r']
  | '\t' => ['\\', 't']
  | c => if c.toNat < 0x20 then '\\' :: 'u' :: writeHex 4 c.toNat else [c]

/-- A string with its quotation marks. -/
def quoted (s : String) : List Char := '"' :: (s.toList.flatMap escaped ++ ['"'])

/-- A number with its sign, point and power. -/
def Numeral.toChars (n : Numeral) : List Char :=
  (if n.negative then ['-'] else []) ++ n.whole ++
    (if n.places = [] then [] else '.' :: n.places) ++
    (match n.power with
     | none => []
     | some (negative, ds) => 'e' :: ((if negative then ['-'] else []) ++ ds))

mutual

/-- The characters of a value. A string that spells no text is left empty. -/
def toChars : Json → List Char
  | .null => "null".toList
  | .bool b => if b then "true".toList else "false".toList
  | .number n => n.toChars
  | .string s => quoted (s.getD "")
  | .array values => '[' :: (elementChars values ++ [']'])
  | .object members => '\x7b' :: (memberChars members ++ ['\x7d'])

/-- Values with commas between them. -/
def elementChars : List Json → List Char
  | [] => []
  | [v] => toChars v
  | v :: vs => toChars v ++ ',' :: elementChars vs

/-- Members with commas between them. -/
def memberChars : List (Option String × Json) → List Char
  | [] => []
  | [(k, v)] => quoted (k.getD "") ++ ':' :: toChars v
  | (k, v) :: ms => quoted (k.getD "") ++ ':' :: (toChars v ++ ',' :: memberChars ms)

end

/-- The text of a value. -/
def render (v : Json) : String := String.ofList v.toChars

end Paybook.Json
