import Paybook.Json.Parser
import Paybook.Json.Printer

/-! # Strings in JSON

A string reads back from its quoted form, whatever its characters are: `string?_escaped`. -/

namespace Paybook.Json

open Text

/-- The piece of a string as which the written form of a character is read. Control characters
without a letter of their own are read as code units. -/
def piece (c : Char) : Piece :=
  if c.toNat < 0x20 ∧ c ∉ ['\x08', '\x0c', '\n', '\r', '\t'] then .unit c.toNat else .char c

/-- A backslash and a letter. -/
theorem pieces?_letter {c e : Char} (h : unescaped? c = some e) (cs : List Char) :
    pieces? ('\\' :: c :: cs) = (pieces? cs).map fun (ps, rest) => (.char e :: ps, rest) := by
  have hu : c ≠ 'u' := by
    rintro rfl
    cases h
  rw [pieces?.eq_4 _ _ fun _ _ _ _ _ hc _ => hu hc, h]
  cases pieces? cs <;> rfl

/-- The code unit of a control character. -/
theorem pieces?_unit {n : Nat} (h : n < 0x20) (cs : List Char) :
    pieces? ('\\' :: 'u' :: writeHex 4 n ++ cs) =
      (pieces? cs).map fun (ps, rest) => (.unit n :: ps, rest) := by
  have hread : ∀ n < 0x20, readHex? (writeHex 4 n) = some n := by decide
  have hdigits := length_writeHex 4 n
  match hw : writeHex 4 n, hdigits with
  | [a, b, c, d], _ =>
    have hn := hread n h
    rw [hw] at hn
    change pieces? ('\\' :: 'u' :: a :: b :: c :: d :: cs) = _
    rw [pieces?, hn]
    cases pieces? cs <;> rfl

/-- A character that is written as it is. -/
theorem pieces?_char {c : Char} (hquote : c ≠ '"') (hslash : c ≠ '\\') (hc : ¬c.toNat < 0x20)
    (cs : List Char) :
    pieces? (c :: cs) = (pieces? cs).map fun (ps, rest) => (.char c :: ps, rest) := by
  rw [pieces?.eq_5 _ _ hquote (fun _ _ _ _ _ h _ => hslash h) fun _ _ h _ => hslash h,
    if_neg (by simp [hslash, hc])]
  cases pieces? cs <;> rfl

/-- The written form of a character is read as one piece. -/
theorem pieces?_escaped (c : Char) (cs : List Char) : pieces? (escaped c ++ cs) =
    (pieces? cs).map fun (ps, rest) => (piece c :: ps, rest) := by
  unfold escaped
  split
  case h_8 hquote hslash hb hf hn hr ht =>
    have hletters : c ∉ ['\x08', '\x0c', '\n', '\r', '\t'] := by
      simpa using ⟨hb, hf, hn, hr, ht⟩
    split
    · next hc =>
      rw [piece, if_pos ⟨hc, hletters⟩]
      exact pieces?_unit hc cs
    · next hc =>
      rw [piece, if_neg fun h => hc h.1]
      exact pieces?_char hquote hslash hc cs
  all_goals exact pieces?_letter rfl cs

/-! ## Spelling -/

/-- A code unit that is no surrogate spells its character, whatever follows. -/
theorem spell?_unit {n : Nat} (h : n < 0xd800) (ps : List Piece) :
    spell? (.unit n :: ps) = (spell? ps).map (Char.ofNat n :: ·) := by
  match ps with
  | .unit m :: ps => rw [spell?, if_neg (by omega), if_neg (by omega)]
  | [] | .char c :: ps => rw [spell?.eq_4 _ _ (by simp), if_neg (by omega)]

/-- The pieces of a text spell it. -/
theorem spell?_pieces (cs : List Char) : spell? (cs.map piece) = some cs := by
  induction cs with
  | nil => rfl
  | cons c cs ih =>
    rw [List.map_cons, piece]
    split
    · next hc =>
      rw [spell?_unit (Nat.lt_trans hc.1 (by decide)), ih, Char.ofNat_toNat]
      rfl
    · rw [spell?, ih]
      rfl

/-- A text reads back from its written form behind the opening quotation mark. -/
theorem string?_escaped (s : String) (rest : List Char) :
    string? (s.toList.flatMap escaped ++ '"' :: rest) = some (some s, rest) := by
  have hpieces : ∀ cs : List Char,
      pieces? (cs.flatMap escaped ++ '"' :: rest) = some (cs.map piece, rest) := by
    intro cs
    induction cs with
    | nil => rfl
    | cons c cs ih =>
      rw [List.flatMap_cons, List.append_assoc, pieces?_escaped, ih]
      rfl
  rw [string?, hpieces, Option.map_some]
  simp [spell?_pieces]

end Paybook.Json
