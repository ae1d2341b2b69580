/-! # Text from bytes

A sequence of bytes is a text when it is well formed in UTF-8: the shortest form of each code
point, and no surrogates. -/

namespace Paybook.Text

/-- The low six bits of a continuation byte. -/
def continuation? (b : UInt8) : Option Nat :=
  if 0x80 ≤ b.toNat ∧ b.toNat ≤ 0xbf then some (b.toNat - 0x80) else none

/-- The character of a code point written in a form that is meant for code points from `least`
on. -/
def scalar? (least n : Nat) : Option Char :=
  if h : least ≤ n ∧ n.isValidChar then some (Char.ofNatAux n h.2) else none

/-- The characters that the bytes spell in UTF-8, if they are well formed. -/
def utf8? : List UInt8 → Option (List Char)
  | [] => some []
  | b :: bs =>
    let n := b.toNat
    if n < 0x80 then do
      let c ← scalar? 0 n
      return c :: (← utf8? bs)
    else if 0xc2 ≤ n ∧ n ≤ 0xdf then
      match bs with
      | b₁ :: rest => do
        let c ← scalar? 0x80 (0x40 * (n - 0xc0) + (← continuation? b₁))
        return c :: (← utf8? rest)
      | _ => none
    else if 0xe0 ≤ n ∧ n ≤ 0xef then
      match bs with
      | b₁ :: b₂ :: rest => do
        let c ← scalar? 0x800
          (0x1000 * (n - 0xe0) + 0x40 * (← continuation? b₁) + (← continuation? b₂))
        return c :: (← utf8? rest)
      | _ => none
    else if 0xf0 ≤ n ∧ n ≤ 0xf4 then
      match bs with
      | b₁ :: b₂ :: b₃ :: rest => do
        let c ← scalar? 0x10000
          (0x40000 * (n - 0xf0) + 0x1000 * (← continuation? b₁) + 0x40 * (← continuation? b₂)
            + (← continuation? b₃))
        return c :: (← utf8? rest)
      | _ => none
    else none

/-- The text that the bytes spell in UTF-8, if they are well formed. -/
def textOfBytes? (bs : List UInt8) : Option String := (utf8? bs).map String.ofList

end Paybook.Text
