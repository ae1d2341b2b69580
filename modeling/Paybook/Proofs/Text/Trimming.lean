import Mathlib.Data.List.DropRight
import Paybook.Text.Numeral
import Paybook.Text.Spelling

/-! # Trimmed texts

What trimming leaves of a text is trimmed itself, and so is every text without blank characters,
such as a numeral behind a word. -/

namespace Paybook.Text

/-- Whether a text is not empty and has no blank character at either end. -/
def IsTrimmed (s : String) : Prop := s ≠ "" ∧ trim s = s

theorem trimmed_eq_rdropWhile (cs : List Char) :
    trimmed cs = (cs.dropWhile isBlank).rdropWhile isBlank := rfl

/-- The first character that trimming leaves is the first one that is not blank. -/
theorem dropWhile_trimmed (cs : List Char) : (trimmed cs).dropWhile isBlank = trimmed cs := by
  rw [trimmed_eq_rdropWhile, List.dropWhile_eq_self_iff]
  intro hpos
  have hstart := List.rdropWhile_prefix isBlank (cs.dropWhile isBlank)
  have hlen := hstart.length_le
  rw [hstart.getElem hpos]
  exact List.dropWhile_get_zero_not isBlank cs (hpos.trans_le hlen)

theorem trimmed_trimmed (cs : List Char) : trimmed (trimmed cs) = trimmed cs := by
  rw [trimmed_eq_rdropWhile (trimmed cs), dropWhile_trimmed, trimmed_eq_rdropWhile,
    List.rdropWhile_idempotent]

/-- Nothing is left of a text by trimming only if all of it is blank. -/
theorem trimmed_eq_nil_iff {cs : List Char} : trimmed cs = [] ↔ cs.all isBlank = true := by
  rw [trimmed_eq_rdropWhile, List.rdropWhile_eq_nil_iff, List.all_eq_true]
  refine ⟨fun h => ?_, fun h c hc => h c ((List.dropWhile_sublist isBlank).subset hc)⟩
  rw [← List.dropWhile_eq_nil_iff, ← List.dropWhile_idempotent, List.dropWhile_eq_nil_iff]
  exact h

theorem isTrimmed_of_trimmed? {s r : String} (h : trimmed? s = some r) : IsTrimmed r := by
  unfold trimmed? at h
  split at h
  · cases h
  · next hblank =>
    cases h
    refine ⟨fun hempty => hblank ?_, ?_⟩
    · rw [isAllBlank, ← trimmed_eq_nil_iff]
      simpa [trim] using hempty
    · rw [trim, trim, String.toList_ofList, trimmed_trimmed]

/-! ## Texts without blank characters -/

/-- Whether no character of a text is blank. -/
def IsSolid (s : String) : Prop := (s.toList.all fun c => !isBlank c) = true

theorem isSolid_iff {s : String} : IsSolid s ↔ ∀ c ∈ s.toList, isBlank c = false := by
  simp [IsSolid]

theorem IsSolid.append {s s' : String} (h : IsSolid s) (h' : IsSolid s') : IsSolid (s ++ s') := by
  rw [IsSolid, String.toList_append, List.all_append, h, h']
  rfl

/-- A text without blank characters is trimmed. -/
theorem IsSolid.isTrimmed {s : String} (h : IsSolid s) (hne : s ≠ "") : IsTrimmed s := by
  rw [isSolid_iff] at h
  refine ⟨hne, ?_⟩
  have hleft : s.toList.dropWhile isBlank = s.toList :=
    List.dropWhile_eq_self_iff.2 fun hpos => by simp [h _ (List.getElem_mem hpos)]
  have hright : s.toList.rdropWhile isBlank = s.toList :=
    List.rdropWhile_eq_self_iff.2 fun hl => by simp [h _ (List.getLast_mem hl)]
  rw [trim, trimmed_eq_rdropWhile, hleft, hright, String.ofList_toList]

theorem isBlank_of_isDigit {c : Char} (h : c.isDigit = true) : isBlank c = false := by
  have hc : 48 ≤ c.toNat ∧ c.toNat ≤ 57 := by
    simpa [Char.isDigit, UInt32.le_iff_toNat_le] using h
  simp [isBlank, blankRanges]
  omega

theorem isBlank_digitChar {d : Nat} (h : d < 16) : isBlank (Nat.digitChar d) = false := by
  have hall : ∀ d < 16, isBlank (Nat.digitChar d) = false := by decide
  exact hall d h

theorem isSolid_toString (n : Nat) : IsSolid (toString n) := by
  refine isSolid_iff.2 fun c hc => ?_
  rw [toList_toString] at hc
  exact isBlank_of_isDigit (isDigit_of_mem_writeNat hc)

theorem isSolid_ofList_writeHex (k n : Nat) : IsSolid (String.ofList (writeHex k n)) := by
  refine isSolid_iff.2 fun c hc => ?_
  rw [String.toList_ofList] at hc
  induction k generalizing n with
  | zero => cases hc
  | succ k ih =>
    rcases List.mem_append.1 hc with hc | hc
    · exact ih _ hc
    · rw [List.mem_singleton.1 hc]
      exact isBlank_digitChar (Nat.mod_lt n (by decide))

end Paybook.Text
