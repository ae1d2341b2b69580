import Paybook.Proofs.Text.Trimming
import Paybook.Text.Spelling

/-! # Variants of a text

Trimming takes nothing but blank characters from the two ends of a text, and has nothing to do with
the case of letters. So the texts that are a trimmed one in letters of either case, with blank
characters around it, are those that differ at most in case from it once they are trimmed:
`varies_iff`. -/

namespace Paybook.Text

/-! ## What is around a trimmed text -/

variable {front cs back : List Char}

theorem trimmed_append (hfront : front.all isBlank = true) (hback : back.all isBlank = true) :
    trimmed (front ++ cs ++ back) = trimmed cs := by
  have hfront' : ∀ c ∈ front, isBlank c = true := List.all_eq_true.1 hfront
  have hback' : ∀ c ∈ back, isBlank c = true := List.all_eq_true.1 hback
  by_cases hblank : cs.all isBlank = true
  · rw [trimmed_eq_nil_iff.2 hblank, trimmed_eq_nil_iff, List.all_append, List.all_append, hfront,
      hblank, hback]
    rfl
  · have hne : (cs.dropWhile isBlank).isEmpty = false := by
      rw [List.isEmpty_eq_false_iff, ne_eq, List.dropWhile_eq_nil_iff]
      exact fun h => hblank (List.all_eq_true.2 h)
    rw [trimmed_eq_rdropWhile, trimmed_eq_rdropWhile, List.append_assoc,
      List.dropWhile_append_of_pos hfront', List.dropWhile_append, hne, if_neg (by simp),
      List.rdropWhile, List.reverse_append,
      List.dropWhile_append_of_pos fun c hc => hback' c (List.mem_reverse.1 hc)]
    rfl

/-- Around what trimming leaves there were blank characters only. -/
theorem exists_trimmed (cs : List Char) : ∃ front back, cs = front ++ trimmed cs ++ back ∧
    front.all isBlank = true ∧ back.all isBlank = true := by
  refine ⟨cs.takeWhile isBlank, (cs.dropWhile isBlank).rtakeWhile isBlank, ?_, ?_, ?_⟩
  · have hends : ∀ ds : List Char, ds.rdropWhile isBlank ++ ds.rtakeWhile isBlank = ds := by
      intro ds
      rw [List.rdropWhile, List.rtakeWhile, ← List.reverse_append, List.takeWhile_append_dropWhile,
        List.reverse_reverse]
    rw [trimmed_eq_rdropWhile, List.append_assoc, hends, List.takeWhile_append_dropWhile]
  · exact List.all_takeWhile
  · exact List.all_eq_true.2 fun c hc => List.mem_rtakeWhile_imp hc

/-! ## Letters of either case -/

/-- No character between a space and the first blank one behind ASCII is blank. -/
theorem isBlank_of_between {c : Char} (hlower : 0x20 < c.toNat) (hupper : c.toNat < 0x85) :
    isBlank c = false := by
  simp [isBlank, blankRanges]
  omega

theorem isBlank_toLower (c : Char) : isBlank c.toLower = isBlank c := by
  by_cases h : c.val ≥ 'A'.val ∧ c.val ≤ 'Z'.val
  · have hc : 65 ≤ c.toNat ∧ c.toNat ≤ 90 := by
      simpa [UInt32.le_iff_toNat_le] using h
    have hlower : c.toLower.toNat = c.toNat + 32 := by
      have hval : c.toLower.val = c.val + 32 := congrArg Char.val (dif_pos h)
      rw [← Char.toNat_val, hval, UInt32.toNat_add, Char.toNat_val]
      exact Nat.mod_eq_of_lt (by simp; omega)
    rw [isBlank_of_between (c := c) (by omega) (by omega), isBlank_of_between (by omega) (by omega)]
  · have hsame : c.toLower = c := dif_neg h
    rw [hsame]

theorem map_toLower_trimmed (cs : List Char) :
    (trimmed cs).map Char.toLower = trimmed (cs.map Char.toLower) := by
  have hblank : isBlank ∘ Char.toLower = isBlank := funext isBlank_toLower
  simp only [trimmed, dropBlanks, List.dropWhile_map, ← List.map_reverse, hblank]

/-! ## Variants -/

/-- Whether a text is another one in letters of either case, with blank characters around it. -/
def Varies (t s : String) : Prop :=
  ∃ front core back : String, t = front ++ core ++ back ∧ isAllBlank front = true ∧
    isAllBlank back = true ∧ sameCaseless core s = true

variable {s t : String}

theorem toList_trim (s : String) : (trim s).toList = trimmed s.toList := String.toList_ofList

/-- A text that differs at most in case from a trimmed one is trimmed itself. -/
theorem trim_eq_of_sameCaseless (h : sameCaseless s t = true) (ht : trim t = t) : trim s = s := by
  rw [sameCaseless_iff, folded, folded] at h
  have htrimmed : (trimmed s.toList).map Char.toLower = s.toList.map Char.toLower := by
    rw [map_toLower_trimmed, h, ← map_toLower_trimmed, ← toList_trim, ht]
  have hlength : (trimmed s.toList).length = s.toList.length := by
    simpa using congrArg List.length htrimmed
  obtain ⟨front, back, hends, -⟩ := exists_trimmed s.toList
  have hsub : (trimmed s.toList).Sublist s.toList := by
    conv_rhs => rw [hends]
    exact (List.sublist_append_right front _).trans (List.sublist_append_left _ back)
  rw [trim, hsub.eq_of_length hlength, String.ofList_toList]

theorem trim_trim (s : String) : trim (trim s) = trim s := by
  rw [trim, toList_trim, trimmed_trimmed, trim]

/-- A text varies a trimmed one exactly if it differs at most in case from it once it is trimmed. -/
theorem varies_iff (hs : trim s = s) : Varies t s ↔ sameCaseless s (trim t) = true := by
  constructor
  · rintro ⟨front, core, back, rfl, hfront, hback, hcase⟩
    have hcore : trim core = core := trim_eq_of_sameCaseless hcase hs
    have htrim : trim (front ++ core ++ back) = core := by
      rw [trim, String.toList_append, String.toList_append, trimmed_append hfront hback]
      exact hcore
    rw [htrim, sameCaseless_comm]
    exact hcase
  · intro hcase
    obtain ⟨front, back, hends, hfront, hback⟩ := exists_trimmed t.toList
    refine ⟨String.ofList front, trim t, String.ofList back, ?_, ?_, ?_, ?_⟩
    · rw [← String.toList_inj, String.toList_append, String.toList_append, String.toList_ofList,
        String.toList_ofList, toList_trim]
      exact hends
    · rwa [isAllBlank, String.toList_ofList]
    · rwa [isAllBlank, String.toList_ofList]
    · rwa [sameCaseless_comm]

end Paybook.Text
