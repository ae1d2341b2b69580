import Paybook.Json.Number
import Paybook.Json.Record
import Paybook.Proofs.Json.Strings
import Paybook.Proofs.Text.Digits

/-! # Records read back

A record whose fields are plain values, without others in them, reads back from its text member by
member: `parse?_ofMembers`. What stands behind a value is a comma or the closing brace, which
belongs to no value. -/

namespace Paybook.Json

open Text

/-- A value without others in it, as records have them: nothing, a whole number or a text. -/
inductive IsPlain : Json → Prop
  | null : IsPlain .null
  | ofNat (n : Nat) : IsPlain (.ofNat n)
  | ofString (s : String) : IsPlain (.ofString s)

theorem IsPlain.ofOption {α : Type} {f : α → Json} (h : ∀ a, (f a).IsPlain) (o : Option α) :
    (Json.ofOption f o).IsPlain := by
  cases o with
  | some a => exact h a
  | none => exact .null

/-- Whether a comma or a closing brace comes next. -/
def EndsValue (cs : List Char) : Prop := ∃ c rest, cs = c :: rest ∧ (c = ',' ∨ c = '\x7d')

variable {cs rest : List Char}

theorem EndsValue.endsDigits (h : EndsValue cs) : EndsDigits cs := by
  obtain ⟨c, rest, rfl, rfl | rfl⟩ := h <;> exact endsDigits_cons rfl

/-! ## Numbers -/

/-- A written number is a digit and more digits. -/
theorem writeNat_eq_cons (n : Nat) :
    ∃ c ds, writeNat n = c :: ds ∧ c.isDigit = true ∧ ∀ d ∈ ds, d.isDigit = true := by
  obtain ⟨c, ds, hds⟩ := List.exists_cons_of_ne_nil (writeNat_ne_nil n)
  have hall : ∀ d ∈ c :: ds, d.isDigit = true := fun d hd => isDigit_of_mem_writeNat (hds ▸ hd)
  exact ⟨c, ds, hds, List.forall_mem_cons.1 hall⟩

theorem whole?_writeNat (n : Nat) (h : EndsDigits rest) :
    whole? (writeNat n ++ rest) = some (writeNat n, rest) := by
  have hds : ∀ c ∈ writeNat n, c.isDigit = true := fun c hc => isDigit_of_mem_writeNat hc
  have hhead : ¬((writeNat n).head? = some '0' ∧ writeNat n ≠ ['0']) := by
    rintro ⟨hzero, hne⟩
    rcases Nat.eq_zero_or_pos n with rfl | hpos
    · exact hne rfl
    · exact head?_writeNat hpos hzero
  rw [whole?, run?, takeWhile_isDigit hds h, dropWhile_isDigit hds h, if_neg (writeNat_ne_nil n)]
  simp only [Option.bind_eq_bind, Option.bind_some, if_neg hhead]

/-- A whole number reads back from its digits. -/
theorem numeral?_writeNat (n : Nat) (h : EndsValue rest) :
    numeral? (writeNat n ++ rest) = some (.ofNat n, rest) := by
  have hwhole := whole?_writeNat n h.endsDigits
  obtain ⟨c, ds, hds, hc, -⟩ := writeNat_eq_cons n
  have hminus : c ≠ '-' := by rintro rfl; cases hc
  have hplaces : places? rest = some ([], rest) := by
    obtain ⟨c, rest, rfl, rfl | rfl⟩ := h <;> rfl
  have hpower : power? rest = some (none, rest) := by
    obtain ⟨c, rest, rfl, rfl | rfl⟩ := h <;> rfl
  rw [hds, List.cons_append] at hwhole
  rw [Numeral.ofNat, hds, List.cons_append]
  simp [numeral?, hminus, hwhole, hplaces, hpower]

/-- A number below the word limit stands for itself. -/
theorem toWord?_ofNat {n : Nat} (h : n < wordLimit) : toWord? (.ofNat n) = some n := by
  have hvalue : Nat.ofDigitChars 10 (writeNat n) 0 = n := Nat.ofDigitChars_ten_toDigits
  have hquantity : (Numeral.ofNat n).quantity? = some (.whole n) := by
    simp [Numeral.quantity?, Numeral.ofNat, hvalue, h]
  simp only [toWord?, ofNat, hquantity]

/-! ## Values -/

theorem dropBlanks_cons {c : Char} (h : isBlank c = false) : dropBlanks (c :: cs) = c :: cs := by
  rw [dropBlanks, List.dropWhile_cons_of_neg (by simp [h])]

theorem value?_writeNat (n : Nat) (h : EndsValue rest) (fuel : Nat) :
    value? (fuel + 1) (writeNat n ++ rest) = some (.ofNat n, rest) := by
  have hread := numeral?_writeNat n h
  obtain ⟨c, ds, hds, hc, -⟩ := writeNat_eq_cons n
  have hother : ∀ d : Char, d.isDigit = false → c ≠ d := by
    rintro d hd rfl
    rw [hc] at hd
    cases hd
  have hblank : isBlank c = false := by
    simp [isBlank, hother ' ' rfl, hother '\t' rfl, hother '\n' rfl, hother '\r' rfl]
  rw [hds, List.cons_append] at hread ⊢
  simp [value?, dropBlanks_cons hblank, hread, hother '[' rfl, hother '\x7b' rfl, hother '"' rfl,
    hother 'n' rfl, hother 't' rfl, hother 'f' rfl, ofNat]

/-- A plain value reads back from its text. -/
theorem value?_toChars {v : Json} (hv : v.IsPlain) (h : EndsValue rest) (fuel : Nat) :
    value? (fuel + 1) (v.toChars ++ rest) = some (v, rest) := by
  cases hv with
  | null => rfl
  | ofNat n =>
    have htext : (ofNat n).toChars = writeNat n := by
      simp [ofNat, toChars, Numeral.toChars, Numeral.ofNat]
    rw [htext]
    exact value?_writeNat n h fuel
  | ofString s =>
    change value? (fuel + 1) (quoted s ++ rest) = _
    rw [quoted, List.cons_append, List.append_assoc, List.singleton_append]
    simp [value?, dropBlanks_cons (c := '"') rfl, string?_escaped, ofString]

/-! ## Members -/

/-- The members of an object of plain values. -/
abbrev named (ms : List (String × Json)) : List (Option String × Json) :=
  ms.map fun (name, value) => (some name, value)

theorem memberChars_cons (m : String × Json) (ms : List (String × Json)) :
    memberChars (named (m :: ms)) = quoted m.1 ++ ':' :: m.2.toChars ++
      (if ms = [] then [] else ',' :: memberChars (named ms)) := by
  cases ms <;> simp [memberChars]

/-- The first member of an object is read up to what ends its value. -/
theorem members?_quoted {name : String} {v : Json} (hv : v.IsPlain) {c : Char}
    (hc : c = ',' ∨ c = '\x7d') (fuel : Nat) :
    members? (fuel + 2) (quoted name ++ ':' :: v.toChars ++ c :: cs) =
      if c = ',' then
        (members? (fuel + 1) cs).map fun (ms, rest) => ((some name, v) :: ms, rest)
      else some ([(some name, v)], cs) := by
  have hvalue := value?_toChars hv ⟨c, cs, rfl, hc⟩ fuel
  simp only [quoted, List.cons_append, List.append_assoc, List.nil_append]
  rw [members?, dropBlanks_cons (c := '"') rfl]
  simp only [string?_escaped, Option.bind_eq_bind, Option.bind_some]
  rw [dropBlanks_cons (c := ':') rfl]
  simp only [hvalue, Option.bind_some]
  rcases hc with rfl | rfl
  · rw [dropBlanks_cons (c := ',') rfl, if_pos rfl]
    cases hrest : members? (fuel + 1) cs <;> simp [hrest]
  · rw [dropBlanks_cons (c := '\x7d') rfl, if_neg (by decide)]
    rfl

/-- Members of plain values read back from their text. -/
theorem members?_memberChars {ms : List (String × Json)} (hne : ms ≠ [])
    (hms : ∀ m ∈ ms, m.2.IsPlain) {fuel : Nat} (hfuel : ms.length < fuel) :
    members? fuel (memberChars (named ms) ++ '\x7d' :: rest) = some (named ms, rest) := by
  induction ms generalizing fuel with
  | nil => exact absurd rfl hne
  | cons m ms ih =>
    obtain ⟨hm, hms⟩ := List.forall_mem_cons.1 hms
    rw [List.length_cons] at hfuel
    obtain ⟨fuel, rfl⟩ : ∃ k, fuel = k + 2 := ⟨fuel - 2, by omega⟩
    rw [memberChars_cons, List.append_assoc]
    split
    · next hnil =>
      subst hnil
      rw [List.nil_append, members?_quoted hm (.inr rfl), if_neg (by decide)]
      rfl
    · next hcons =>
      rw [List.cons_append, members?_quoted hm (.inl rfl), if_pos rfl, ih hcons hms (by omega)]
      rfl

/-- Members are at least as long as they are many. -/
theorem length_le_length_memberChars (ms : List (String × Json)) :
    ms.length ≤ (memberChars (named ms)).length := by
  induction ms with
  | nil => exact Nat.zero_le _
  | cons m ms ih =>
    simp only [memberChars_cons, quoted, List.length_append, List.length_cons]
    split
    · next hnil =>
      rw [hnil, List.length_nil]
      omega
    · rw [List.length_cons]
      omega

/-- A record of plain values reads back from its text. -/
theorem parse?_ofMembers {ms : List (String × Json)} (hne : ms ≠ [])
    (hms : ∀ m ∈ ms, m.2.IsPlain) : parse? (ofMembers ms).render = some (ofMembers ms) := by
  have hchars : (ofMembers ms).toChars = '\x7b' :: (memberChars (named ms) ++ ['\x7d']) := rfl
  have hvalue : ∀ fuel, ms.length < fuel →
      value? (fuel + 1) (ofMembers ms).toChars = some (ofMembers ms, []) := by
    intro fuel hfuel
    have hread : members? fuel (memberChars (named ms) ++ ['\x7d']) = some (named ms, []) :=
      members?_memberChars hne hms hfuel
    obtain ⟨m, ms, rfl⟩ := List.exists_cons_of_ne_nil hne
    rw [hchars]
    rw [memberChars_cons, quoted] at hread ⊢
    simp only [List.cons_append] at hread ⊢
    simpa [value?, dropBlanks_cons (c := '\x7b') rfl, dropBlanks_cons (c := '"') rfl, ofMembers]
      using hread
  have hlength := length_le_length_memberChars ms
  have hfuel : ms.length < 2 * (ofMembers ms).toChars.length + 1 := by
    rw [hchars, List.length_cons, List.length_append]
    omega
  rw [parse?, render, String.length_ofList, String.toList_ofList, hvalue _ hfuel]
  rfl

/-! ## Fields -/

theorem mapM_named (ms : List (String × Json)) :
    (named ms).mapM (fun (name, value) => name.map (·, value)) = some ms := by
  induction ms with
  | nil => rfl
  | cons m ms ih =>
    rw [named, List.map_cons, List.mapM_cons, ih]
    rfl

/-- A record has the fields that it was made of, if each is there once. -/
theorem allFields?_ofMembers {ms : List (String × Json)} (h : (ms.map Prod.fst).Nodup) :
    allFields? (ms.map Prod.fst) (ofMembers ms) = some ms := by
  have hknown : ms.filter (fun (name, _) => (ms.map Prod.fst).contains name) = ms := by
    refine List.filter_eq_self.2 fun m hm => ?_
    simpa using ⟨m.2, hm⟩
  simp only [allFields?, fields?, ofMembers, Option.bind_eq_bind, mapM_named, Option.bind_some,
    hknown, if_pos h]

variable {α : Type} {fields : List (String × Json)} {name : String} {f : Json → Option α} {v : Json}
variable {a : α}

theorem required?_eq_some (hv : fields.lookup name = some v) (ha : f v = some a) :
    required? fields name f = some a := by
  rw [required?, hv, Option.bind_some, ha]

theorem optional?_eq_some (hv : fields.lookup name = some v) (ha : f v = some a) (default : α) :
    optional? fields name default f = some a := by
  rw [optional?, hv]
  exact ha

end Paybook.Json
