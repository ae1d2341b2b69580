/-! # Spelling

What does not count in the spelling of a text. Every free text that reaches the book is trimmed of
the characters with the Unicode property `White_Space`. Names are compared without regard to the
case of ASCII letters: only `A` to `Z` have two forms, and every other character stands for
itself. -/

namespace Paybook.Text

/-! ## Blanks at the ends -/

/-- The code points with the Unicode property `White_Space`, as inclusive ranges. -/
def blankRanges : List (Nat × Nat) :=
  [(0x09, 0x0d), (0x20, 0x20), (0x85, 0x85), (0xa0, 0xa0), (0x1680, 0x1680), (0x2000, 0x200a),
   (0x2028, 0x2029), (0x202f, 0x202f), (0x205f, 0x205f), (0x3000, 0x3000)]

/-- A character that trimming removes. -/
def isBlank (c : Char) : Bool :=
  blankRanges.any fun (lo, hi) => lo ≤ c.toNat && c.toNat ≤ hi

/-- The characters from the first one that is not blank on. -/
def dropBlanks (cs : List Char) : List Char := cs.dropWhile isBlank

/-- The characters without the blank ones at either end. -/
def trimmed (cs : List Char) : List Char := (dropBlanks (dropBlanks cs).reverse).reverse

/-- A text without the blank characters at either end. -/
def trim (s : String) : String := String.ofList (trimmed s.toList)

/-- A text of blank characters only. -/
def isAllBlank (s : String) : Bool := s.toList.all isBlank

/-- The whole trimmed text, unless nothing is left of it. -/
def trimmed? (s : String) : Option String :=
  if isAllBlank s then none else some (trim s)

/-- Every character that `Char.isWhitespace` accepts is blank. -/
theorem isBlank_of_isWhitespace {c : Char} (h : c.isWhitespace = true) : isBlank c = true := by
  simp only [Char.isWhitespace, Bool.or_eq_true, decide_eq_true_eq] at h
  rcases h with (((rfl | rfl) | rfl) | rfl) <;> decide

/-! ## The case of letters -/

/-- The text with each of `A` to `Z` in its small form. -/
def folded (s : String) : List Char := s.toList.map Char.toLower

/-- Whether two texts differ at most in the case of ASCII letters. -/
def sameCaseless (a b : String) : Bool := folded a == folded b

@[simp] theorem sameCaseless_iff {a b : String} :
    sameCaseless a b = true ↔ folded a = folded b := by
  simp [sameCaseless]

theorem sameCaseless_refl (a : String) : sameCaseless a a = true := by simp

theorem sameCaseless_comm (a b : String) : sameCaseless a b = sameCaseless b a := by
  simp [sameCaseless, BEq.comm]

end Paybook.Text
