import Paybook.Json.Basic

/-! # Reading JSON

The whole text must be one value, with blanks allowed around it. A step takes the text to read and
gives what it read and the rest. -/

namespace Paybook.Json

open Text

/-- A blank of JSON. -/
def isBlank (c : Char) : Bool := c == ' ' || c == '\t' || c == '\n' || c == '\r'

def dropBlanks (cs : List Char) : List Char := cs.dropWhile isBlank

/-! ## Strings -/

/-- A piece of a string: a character, or the UTF-16 code unit of an escape. -/
inductive Piece where
  | char (c : Char)
  | unit (n : Nat)
deriving DecidableEq, Repr

/-- The character that a backslash and a letter stand for. -/
def unescaped? : Char → Option Char
  | '"' => some '"'
  | '\\' => some '\\'
  | '/' => some '/'
  | 'b' => some '\x08'
  | 'f' => some '\x0c'
  | 'n' => some '\n'
  | 'r' => some '\r'
  | 't' => some '\t'
  | _ => none

/-- The pieces of a string up to its closing quotation mark. -/
def pieces? : List Char → Option (List Piece × List Char)
  | [] => none
  | '"' :: cs => some ([], cs)
  | '\\' :: 'u' :: a :: b :: c :: d :: cs => do
    let n ← readHex? [a, b, c, d]
    let (ps, rest) ← pieces? cs
    return (.unit n :: ps, rest)
  | '\\' :: c :: cs => do
    let e ← unescaped? c
    let (ps, rest) ← pieces? cs
    return (.char e :: ps, rest)
  | c :: cs =>
    if c.toNat < 0x20 ∨ c = '\\' then none
    else do
      let (ps, rest) ← pieces? cs
      return (.char c :: ps, rest)

/-- The characters that pieces spell; the units of a surrogate pair make one character, and any
other surrogate spells none. -/
def spell? : List Piece → Option (List Char)
  | [] => some []
  | .char c :: ps => (spell? ps).map (c :: ·)
  | .unit n :: .unit m :: ps =>
    if 0xd800 ≤ n ∧ n < 0xdc00 then
      if 0xdc00 ≤ m ∧ m < 0xe000 then
        (spell? ps).map (Char.ofNat (0x10000 + (n - 0xd800) * 0x400 + (m - 0xdc00)) :: ·)
      else none
    else if 0xdc00 ≤ n ∧ n < 0xe000 then none
    else (spell? (.unit m :: ps)).map (Char.ofNat n :: ·)
  | .unit n :: ps =>
    if 0xd800 ≤ n ∧ n < 0xe000 then none else (spell? ps).map (Char.ofNat n :: ·)

/-- A string behind its opening quotation mark. -/
def string? (cs : List Char) : Option (Option String × List Char) :=
  (pieces? cs).map fun (ps, rest) => ((spell? ps).map String.ofList, rest)

/-! ## Numbers -/

/-- A non-empty run of digits. -/
def run? (cs : List Char) : Option (List Char × List Char) :=
  let ds := cs.takeWhile Char.isDigit
  if ds = [] then none else some (ds, cs.dropWhile Char.isDigit)

/-- The digits before the point; a zero stands alone. -/
def whole? (cs : List Char) : Option (List Char × List Char) := do
  let (ds, rest) ← run? cs
  if ds.head? = some '0' ∧ ds ≠ ['0'] then none else some (ds, rest)

/-- The digits behind a point, if there is one. -/
def places? : List Char → Option (List Char × List Char)
  | '.' :: cs => run? cs
  | cs => some ([], cs)

/-- The power of ten behind an `e`, if there is one. -/
def power? : List Char → Option (Option (Bool × List Char) × List Char)
  | c :: cs =>
    if c = 'e' ∨ c = 'E' then
      let (negative, ds) := match cs with
        | '-' :: ds => (true, ds)
        | ds => (false, dropPlus ds)
      (run? ds).map fun (ds, rest) => (some (negative, ds), rest)
    else some (none, c :: cs)
  | [] => some (none, [])

/-- A number. -/
def numeral? (cs : List Char) : Option (Numeral × List Char) := do
  let (negative, cs) := match cs with
    | '-' :: cs => (true, cs)
    | cs => (false, cs)
  let (whole, cs) ← whole? cs
  let (places, cs) ← places? cs
  let (power, cs) ← power? cs
  return (⟨negative, whole, places, power⟩, cs)

/-! ## Values -/

/-- The text behind a given word. -/
def literal? : List Char → List Char → Option (List Char)
  | [], cs => some cs
  | w :: ws, c :: cs => if c = w then literal? ws cs else none
  | _ :: _, [] => none

mutual

/-- A value. Each nested value takes one unit of fuel. -/
def value? : (fuel : Nat) → List Char → Option (Json × List Char)
  | 0, _ => none
  | fuel + 1, cs =>
    match dropBlanks cs with
    | [] => none
    | '[' :: cs =>
      match dropBlanks cs with
      | ']' :: rest => some (.array [], rest)
      | cs => (elements? fuel cs).map fun (vs, rest) => (.array vs, rest)
    | '\x7b' :: cs =>
      match dropBlanks cs with
      | '\x7d' :: rest => some (.object [], rest)
      | cs => (members? fuel cs).map fun (ms, rest) => (.object ms, rest)
    | '"' :: cs => (string? cs).map fun (s, rest) => (.string s, rest)
    | 'n' :: cs => (literal? "ull".toList cs).map (.null, ·)
    | 't' :: cs => (literal? "rue".toList cs).map (.bool true, ·)
    | 'f' :: cs => (literal? "alse".toList cs).map (.bool false, ·)
    | cs => (numeral? cs).map fun (n, rest) => (.number n, rest)

/-- The values of an array up to its closing bracket. -/
def elements? : (fuel : Nat) → List Char → Option (List Json × List Char)
  | 0, _ => none
  | fuel + 1, cs => do
    let (v, cs) ← value? fuel cs
    match dropBlanks cs with
    | ',' :: cs =>
      let (vs, rest) ← elements? fuel cs
      return (v :: vs, rest)
    | ']' :: rest => return ([v], rest)
    | _ => none

/-- The members of an object up to its closing brace. -/
def members? : (fuel : Nat) → List Char → Option (List (Option String × Json) × List Char)
  | 0, _ => none
  | fuel + 1, cs =>
    match dropBlanks cs with
    | '"' :: cs => do
      let (k, cs) ← string? cs
      match dropBlanks cs with
      | ':' :: cs =>
        let (v, cs) ← value? fuel cs
        match dropBlanks cs with
        | ',' :: cs =>
          let (ms, rest) ← members? fuel cs
          return ((k, v) :: ms, rest)
        | '\x7d' :: rest => return ([(k, v)], rest)
        | _ => none
      | _ => none
    | _ => none

end

/-- The value that a text writes. Every nested value and every comma costs a character, so that
twice the length of the text is fuel enough. -/
def parse? (s : String) : Option Json :=
  match value? (2 * s.length + 2) s.toList with
  | some (v, rest) => if dropBlanks rest = [] then some v else none
  | none => none

end Paybook.Json
