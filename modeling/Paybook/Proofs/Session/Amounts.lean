import Paybook.Proofs.Binary64.Decimals
import Paybook.Proofs.Session.Columns

/-! # Amounts of rows

An amount is taken for a whole number if it is written like one, and else for a double. So a whole
number of 64 bits is read as it is and a longer one not at all, and behind a point no more than the
first fifteen digits of a number are safe: `Operation.amount_read`. -/

namespace Paybook

open Text

namespace Text

theorem toLower_of_isDigit {c : Char} (h : c.isDigit = true) : c.toLower = c := by
  refine dif_neg ?_
  simp only [Char.isDigit, Bool.and_eq_true, decide_eq_true_eq] at h
  rintro ⟨hlow, -⟩
  exact absurd (UInt32.le_trans hlow h.2) (by decide)

/-- A word is no literal that begins with a digit, whatever the case of its letters. -/
theorem sameCaseless_of_isDigit {c : Char} (h : c.isDigit = true) (cs : List Char) (c' : Char)
    (cs' : List Char) (h' : c'.toLower.isDigit = false) :
    sameCaseless (String.ofList (c :: cs)) (String.ofList (c' :: cs')) = false := by
  rw [Bool.eq_false_iff, ne_eq, sameCaseless_iff, folded, folded, String.toList_ofList,
    String.toList_ofList, List.map_cons, List.map_cons, toLower_of_isDigit h]
  intro hsame
  rw [← (List.cons.inj hsame).1, h] at h'
  cases h'

end Text

namespace Csv

/-- A plain literal: an optional minus sign, digits, and maybe a point with more digits. -/
structure Literal where
  negative : Bool
  whole : List Char
  places : Option (List Char)
  whole_ne_nil : whole ≠ []
  all_isDigit : (whole ++ places.getD []).all Char.isDigit = true

namespace Literal

/-- The characters behind the digits before the point. -/
def behind (l : Literal) : List Char :=
  match l.places with
  | none => []
  | some places => '.' :: places

def text (l : Literal) : String :=
  String.ofList ((if l.negative then ['-'] else []) ++ (l.whole ++ l.behind))

/-- All digits as one number. -/
def digits (l : Literal) : Nat := Nat.ofDigitChars 10 (l.whole ++ l.places.getD []) 0

/-- The digits with the sign. -/
def toInt (l : Literal) : Int := if l.negative then -(l.digits : Int) else l.digits

/-- The number that a literal writes. -/
def toRat (l : Literal) : ℚ := signed l.negative (l.digits / 10 ^ (l.places.getD []).length)

/-- What may be read for a literal that writes the value of a decimal. -/
structure ReadAs (l : Literal) (read : Option Decimal) : Prop where
  word : l.places = none → -2 ^ 63 ≤ l.toRat → l.toRat < 2 ^ 64 →
    ∃ d, read = some d ∧ d.toRat = l.toRat
  refused : l.places = none → (l.toRat < -2 ^ 63 ∨ 2 ^ 64 ≤ l.toRat) → read = none
  rounded : l.places ≠ none → Decimal.Rounded l.toRat read

variable {l : Literal} {v : Decimal} {places : List Char}

/-- A literal with the digits and the places of a decimal writes its value. -/
theorem toRat_eq (hnegative : v.negative = l.negative) (hdigits : v.magnitude = l.digits)
    (hplaces : v.scale = (l.places.getD []).length) : v.toRat = l.toRat := by
  rw [Decimal.toRat_eq_signed, toRat, hnegative, hdigits, hplaces, zpow_neg, zpow_natCast,
    div_eq_mul_inv]

theorem isDigit_of_mem_whole {c : Char} (h : c ∈ l.whole) : c.isDigit = true :=
  List.all_eq_true.1 l.all_isDigit c (List.mem_append_left _ h)

theorem isDigit_of_mem_places {c : Char} (h : l.places = some places) (hc : c ∈ places) :
    c.isDigit = true := by
  refine List.all_eq_true.1 l.all_isDigit c (List.mem_append_right _ ?_)
  rwa [h]

theorem exists_head (l : Literal) : ∃ c cs, l.whole ++ l.behind = c :: cs ∧ c.isDigit = true := by
  obtain ⟨c, cs, hwhole⟩ := List.exists_cons_of_ne_nil l.whole_ne_nil
  refine ⟨c, cs ++ l.behind, by rw [hwhole]; rfl, l.isDigit_of_mem_whole ?_⟩
  rw [hwhole]
  exact List.mem_cons_self

theorem text_ne (l : Literal) (c : Char) (cs : List Char) (hminus : c ≠ '-')
    (hdigit : c.isDigit = false) : l.text ≠ String.ofList (c :: cs) := by
  intro h
  have hchars := String.ofList_injective h
  obtain ⟨c', cs', hhead, hdigit'⟩ := l.exists_head
  rw [hhead] at hchars
  cases hn : l.negative with
  | true =>
    rw [hn] at hchars
    exact hminus (List.cons.inj hchars).1.symm
  | false =>
    rw [hn] at hchars
    rw [← (List.cons.inj hchars).1, hdigit'] at hdigit
    cases hdigit

/-! ## Reading a whole number -/

theorem readWhole?_text (l : Literal) : readWhole? l.text =
    (readNat? (l.whole ++ l.behind)).map fun n : Nat =>
      if l.negative then -(n : Int) else (n : Int) := by
  obtain ⟨c, cs, hhead, hdigit⟩ := l.exists_head
  have hminus : c ≠ '-' := by rintro rfl; cases hdigit
  have hplus : c ≠ '+' := by rintro rfl; cases hdigit
  unfold readWhole? text
  rw [String.toList_ofList, hhead]
  cases l.negative with
  | true => simp [Option.map_eq_bind, Option.bind_assoc]
  | false => simp [dropPlus, hminus, hplus, Option.map_eq_bind]

theorem readWhole?_of_none (h : l.places = none) : readWhole? l.text = some l.toInt := by
  have hread : readNat? (l.whole ++ l.behind) = some l.digits := by
    unfold behind digits
    rw [h, Option.getD_none, List.append_nil]
    exact if_pos ⟨l.whole_ne_nil, List.all_eq_true.2 fun c hc => l.isDigit_of_mem_whole hc⟩
  rw [readWhole?_text, hread, Option.map_some, toInt]

theorem readWhole?_of_some (h : l.places = some places) : readWhole? l.text = none := by
  have hread : readNat? (l.whole ++ l.behind) = none := by
    unfold behind readNat?
    rw [h]
    simp [Char.isDigit]
  rw [readWhole?_text, hread, Option.map_none]

/-! ## Reading a double -/

theorem readFinite?_text (h : l.places = some places) :
    Binary64.readFinite? l.negative (l.whole ++ l.behind) =
      some (.ofScientific l.negative l.digits (-places.length)) := by
  have hwhole : ∀ c ∈ l.whole, c.isDigit = true := fun c hc => l.isDigit_of_mem_whole hc
  have hplaces : ∀ c ∈ places, c.isDigit = true := fun c hc => isDigit_of_mem_places h hc
  have hpoint : EndsDigits ('.' :: places) := endsDigits_cons rfl
  have hne : l.whole ++ places ≠ [] := List.append_ne_nil_of_left_ne_nil l.whole_ne_nil _
  have htake := takeWhile_isDigit hplaces endsDigits_nil
  have hdrop := dropWhile_isDigit hplaces endsDigits_nil
  rw [List.append_nil] at htake hdrop
  unfold Binary64.readFinite? behind digits
  rw [h, takeWhile_isDigit hwhole hpoint, dropWhile_isDigit hwhole hpoint]
  simp only [htake, hdrop, if_neg hne, Option.getD_some, zero_sub]

/-- What begins with a digit is not one of the words for doubles. -/
theorem readUnsigned?_of_isDigit (negative : Bool) {c : Char} {cs : List Char}
    (h : c.isDigit = true) :
    Binary64.readUnsigned? negative (c :: cs) = Binary64.readFinite? negative (c :: cs) := by
  have hinf := sameCaseless_of_isDigit h cs 'i' ['n', 'f'] rfl
  have hinfinity := sameCaseless_of_isDigit h cs 'i' ['n', 'f', 'i', 'n', 'i', 't', 'y'] rfl
  have hnan := sameCaseless_of_isDigit h cs 'n' ['a', 'n'] rfl
  unfold Binary64.readUnsigned?
  rw [if_neg, if_neg]
  · exact Bool.eq_false_iff.1 hnan
  · rw [Bool.or_eq_true, not_or]
    exact ⟨Bool.eq_false_iff.1 hinf, Bool.eq_false_iff.1 hinfinity⟩

theorem read?_text (h : l.places = some places) : Binary64.read? l.text =
    some (.ofScientific l.negative l.digits (-places.length)) := by
  obtain ⟨c, cs, hhead, hdigit⟩ := l.exists_head
  have hminus : c ≠ '-' := by rintro rfl; cases hdigit
  have hplus : c ≠ '+' := by rintro rfl; cases hdigit
  rw [← readFinite?_text h, hhead, ← readUnsigned?_of_isDigit _ hdigit]
  unfold Binary64.read? text
  rw [String.toList_ofList, hhead]
  cases l.negative with
  | true => rfl
  | false => simp [hminus, hplus]

/-! ## Reading an amount -/

theorem fits_eq_true_iff {limit : Nat} {n : Int} :
    fits limit n = true ↔ -((limit / 2 : Nat) : Int) ≤ n ∧ n < limit := by
  rw [fits, Bool.and_eq_true, decide_eq_true_iff, decide_eq_true_iff]

/-- A whole number of 64 bits has a decimal. -/
theorem exists_ofInt? {n : Int} (h : fits wordLimit n = true) :
    ∃ d, Decimal.ofInt? n = some d ∧ d.toRat = n := by
  rw [fits_eq_true_iff, wordLimit] at h
  obtain ⟨d, hd⟩ : ∃ d, Decimal.ofInt? n = some d := by
    refine Option.isSome_iff_exists.1 (Decimal.isSome_ofParts?.2 ⟨?_, Nat.zero_le _⟩)
    rw [Decimal.maxMagnitude]
    omega
  exact ⟨d, hd, by rw [Decimal.toRat_of_ofParts? hd, pow_zero, div_one]⟩

/-- What is read for a literal that writes the value of a decimal. -/
theorem readAs (hv : v.toRat = l.toRat) : l.ReadAs (readAmount? l.text) := by
  have htrue : l.text ≠ "true" := l.text_ne 't' ['r', 'u', 'e'] (by decide) rfl
  have hfalse : l.text ≠ "false" := l.text_ne 'f' ['a', 'l', 's', 'e'] (by decide) rfl
  rw [readAmount?, if_neg (not_or.2 ⟨htrue, hfalse⟩)]
  cases hplaces : l.places with
  | none =>
    have hvalue : l.toRat = l.toInt := by
      rw [toRat, toInt, hplaces, signed]
      split <;> simp
    have hmax : |(l.toInt : ℚ)| ≤ Decimal.maxMagnitude := hvalue ▸ hv ▸ v.abs_toRat_le
    have hmax : |l.toInt| ≤ Decimal.maxMagnitude := by exact_mod_cast hmax
    rw [Decimal.maxMagnitude, abs_le] at hmax
    rw [readWhole?_of_none hplaces]
    refine ⟨fun _ hlow hhigh => ?_, fun _ hlong => ?_, fun h => absurd hplaces h⟩
    · rw [hvalue] at hlow hhigh ⊢
      have hlow : -2 ^ 63 ≤ l.toInt := by exact_mod_cast hlow
      have hhigh : l.toInt < 2 ^ 64 := by exact_mod_cast hhigh
      have hword : fits wordLimit l.toInt = true := by
        rw [fits_eq_true_iff, wordLimit]
        omega
      simp only [if_pos hword]
      exact exists_ofInt? hword
    · rw [hvalue] at hlong
      have hlong : l.toInt < -2 ^ 63 ∨ 2 ^ 64 ≤ l.toInt := by exact_mod_cast hlong
      have hword : ¬fits wordLimit l.toInt = true := by
        rw [fits_eq_true_iff, wordLimit]
        omega
      have htwo : fits (wordLimit * wordLimit) l.toInt = true := by
        rw [fits_eq_true_iff, wordLimit]
        omega
      simp only [if_neg hword, if_pos htwo]
  | some places =>
    have hne : l.places ≠ none := by simp [hplaces]
    refine ⟨fun h => absurd h hne, fun h => absurd h hne, fun _ => ?_⟩
    rw [readWhole?_of_some hplaces]
    unfold readFraction?
    rw [read?_text hplaces, toRat, hplaces]
    refine Binary64.rounded_ofScientific (v := v) l.negative ?_
    rw [hv, toRat, hplaces, abs_signed (by positivity)]

end Literal

/-- Whether two rows have the same text in every column but one, or none in both. -/
def NamedRow.AgreesBut (column : Column) (r r' : NamedRow) : Prop :=
  ∀ cell : Column × String, cell.1 ≠ column → (cell ∈ r.cells ↔ cell ∈ r'.cells)

end Csv

/-! ## Operations with another amount -/

namespace Operation

/-- The amount of money that an operation names, if it names one. -/
def amount? : Operation → Option Decimal
  | .order o => some o.total
  | .charge _ amount _ _ => some amount
  | .withdraw _ amount _ _ => some amount
  | .adminCredit _ amount _ => some amount
  | .adminDebit _ amount _ => some amount
  | .user _ _ | .pay _ _ _ | .refund _ _ | .settle _ _ _ _ => none

/-- The operation with another amount, if it names one. -/
def withAmount (amount : Decimal) : Operation → Operation
  | .order o => .order { o with total := amount }
  | .charge u _ method description => .charge u amount method description
  | .withdraw u _ account reason => .withdraw u amount account reason
  | .adminCredit u _ reason => .adminCredit u amount reason
  | .adminDebit u _ reason => .adminDebit u amount reason
  | o => o

theorem amount?_withAmount {o : Operation} {a : Decimal} (h : o.amount? = some a) (d : Decimal) :
    (o.withAmount d).amount? = some d := by
  cases o with
  | order | charge | withdraw | adminCredit | adminDebit => rfl
  | user | pay | refund | settle => cases h

end Operation

namespace Attempt

variable {α β : Type}

theorem bind_eq_ok {x : Attempt α} {f : α → Attempt β} {b : β} :
    x >>= f = .ok b ↔ ∃ a, x = .ok a ∧ f a = .ok b := by
  cases x with
  | error _ => exact ⟨nofun, nofun⟩
  | ok a => exact ⟨fun h => ⟨a, rfl, h⟩, fun ⟨_, ha, h⟩ => by cases ha; exact h⟩

theorem pure_eq_ok {a b : α} : (pure a : Attempt α) = .ok b ↔ a = b :=
  Except.ok.injEq a b ▸ Iff.rfl

end Attempt

namespace Cells

open Csv

variable {row row' : Row} {c : Cells} {o : Operation} {a : Decimal}

/-- Rows that have the same texts but for the amount have the same cells but for the amount. -/
theorem ofRow?_of_amount (hsame : ∀ column, column ≠ .amount → row column = row' column)
    (h : ofRow? row = some c) :
    ofRow? row' = (value? readAmount? (row' .amount)).map fun amount => { c with amount } := by
  unfold ofRow? at h ⊢
  rw [← hsame .op nofun, ← hsame .user nofun, ← hsame .order nofun, ← hsame .tx nofun,
    ← hsame .method nofun, ← hsame .reference nofun, ← hsame .status nofun, ← hsame .note nofun]
  simp only [Option.bind_eq_bind, Option.bind_eq_some_iff] at h
  obtain ⟨sort, hsort, user, huser, order, horder, tx, htx, amount, -, hc⟩ := h
  cases hc
  rw [Option.bind_eq_some_iff.2 hsort, huser, horder, htx]
  cases value? readAmount? (row' .amount) <;> rfl

theorem need_eq_ok {α : Type} {column : Column} {value : Option α} {a : α} :
    c.need column value = .ok a ↔ value = some a := by
  cases value with
  | none => exact ⟨nofun, nofun⟩
  | some _ => exact ⟨fun h => by cases h; rfl, fun h => by cases h; rfl⟩

/-- The amount of an operation that names one is the amount of its cells. -/
theorem operation_withAmount (h : c.operation = .ok o) (ha : o.amount? = some a) (d : Decimal) :
    { c with amount := some d }.operation = .ok (o.withAmount d) := by
  obtain ⟨sort, user, order, tx, amount, method, reference, status, note⟩ := c
  cases sort
  all_goals simp only [operation, Attempt.bind_eq_ok, need_eq_ok, Attempt.pure_eq_ok] at h ⊢
  case user =>
    obtain ⟨_, rfl, rfl⟩ := h
    cases ha
  case order =>
    obtain ⟨_, rfl, _, rfl, _, rfl, rfl⟩ := h
    exact ⟨_, rfl, _, rfl, _, rfl, rfl⟩
  case charge =>
    obtain ⟨_, rfl, _, rfl, _, rfl, _, hmethod, rfl⟩ := h
    exact ⟨_, rfl, _, rfl, _, rfl, _, hmethod, rfl⟩
  case withdraw =>
    obtain ⟨_, rfl, _, rfl, _, rfl, rfl⟩ := h
    exact ⟨_, rfl, _, rfl, _, rfl, rfl⟩
  case adminCredit | adminDebit =>
    obtain ⟨_, rfl, _, rfl, rfl⟩ := h
    exact ⟨_, rfl, _, rfl, rfl⟩
  case pay =>
    obtain ⟨_, rfl, _, rfl, _, rfl, _, -, rfl⟩ := h
    cases ha
  case refund =>
    obtain ⟨_, rfl, rfl⟩ := h
    cases ha
  case settle =>
    obtain ⟨_, rfl, _, rfl, _, -, rfl⟩ := h
    cases ha

end Cells

namespace Operation

open Csv

variable {l : Literal} {v a : Decimal} {o : Operation} {r r' : NamedRow} {bs bs' : List UInt8}
  {i j : Nat}

/-- A row with a literal for its amount asks for what the row asks for with any other amount, but
for the amount that is read for the literal. If none may be read for it, the row is not readable. -/
theorem amount_read (hr : r.StandsIn bs i) (hvalid : (ofTable bs)[i]? = some (.ok o))
    (ha : o.amount? = some a) (hr' : r'.StandsIn bs' j) (hsame : r.AgreesBut .amount r')
    (hl : (.amount, l.text) ∈ r'.cells) (hv : v.toRat = l.toRat) :
    ∃ read, l.ReadAs read ∧ (ofTable bs')[j]? = some
      (match read with
      | some d => .ok (o.withAmount d)
      | none => .error unreadable) ∧
    ∀ d, (o.withAmount d).amount? = some d := by
  refine ⟨_, Literal.readAs hv, ?_, amount?_withAmount ha⟩
  obtain ⟨row, hrow, hcells⟩ := r.ofFields?_columns
  obtain ⟨row', hrow', hcells'⟩ := r'.ofFields?_columns
  have hamount : row' .amount = some l.text := (hcells' _ _).2 hl
  have hcolumns : ∀ column, column ≠ .amount → row column = row' column := by
    intro column hne
    exact Option.ext fun text =>
      (hcells column text).trans ((hsame (column, text) hne).trans (hcells' column text).symm)
  rw [ofTable_of_standsIn hr, hrow, Option.bind_some, Option.some_inj] at hvalid
  rw [ofTable_of_standsIn hr', hrow', Option.bind_some]
  cases hread : Cells.ofRow? row with
  | none =>
    rw [hread] at hvalid
    cases hvalid
  | some c =>
    rw [hread] at hvalid
    rw [Cells.ofRow?_of_amount hcolumns hread, hamount, Cells.value?]
    cases readAmount? l.text with
    | none => rfl
    | some d => exact congrArg some (Cells.operation_withAmount hvalid ha d)

/-- An amount of fifteen digits, of a row that is valid with another amount. -/
theorem amount_read_of_fifteen_digits :
    let l : Literal := ⟨true, "123456789".toList, some "012345".toList, by decide, by decide⟩
    let v : Decimal := { negative := true, magnitude := 123456789012345, scale := 6 }
    let r : NamedRow := ⟨[.op, .user, .amount], ["admin_credit", "1", "7"], by decide⟩
    let r' : NamedRow :=
      ⟨[.amount, .op, .user], ["-123456789.012345", "admin_credit", "1"], by decide⟩
    let bs := "op,user,amount\nadmin_credit,1,7\n".toUTF8.toList
    let bs' := "amount,op,user\n-123456789.012345,admin_credit,1\n".toUTF8.toList
    let o : Operation := .adminCredit 1 { negative := false, magnitude := 7, scale := 0 } ""
    r.StandsIn bs 0 ∧ (ofTable bs)[0]? = some (.ok o) ∧ r'.StandsIn bs' 0 ∧
      r.AgreesBut .amount r' ∧ (.amount, l.text) ∈ r'.cells ∧ v.toRat = l.toRat ∧
      ∃ d, (ofTable bs')[0]? = some (.ok (o.withAmount d)) ∧ d.toRat = l.toRat := by
  intro l v r r' bs bs' o
  have hr : r.StandsIn bs 0 := ⟨by decide +kernel, by decide +kernel⟩
  have hvalid : (ofTable bs)[0]? = some (.ok o) := by decide +kernel
  have hr' : r'.StandsIn bs' 0 := ⟨by decide +kernel, by decide +kernel⟩
  have hcells : r.cells = [(.op, "admin_credit"), (.user, "1"), (.amount, "7")] := by decide +kernel
  have hcells' : r'.cells =
      [(.amount, "-123456789.012345"), (.op, "admin_credit"), (.user, "1")] := by
    decide +kernel
  have hsame : r.AgreesBut .amount r' := by
    rintro ⟨column, text⟩ hne
    have hne : column ≠ .amount := hne
    simp [hcells, hcells', hne]
  have hl : (Column.amount, l.text) ∈ r'.cells := by decide +kernel
  have hv : v.toRat = l.toRat := Literal.toRat_eq rfl (by decide +kernel) (by decide +kernel)
  obtain ⟨read, hread, htable, -⟩ := amount_read hr hvalid rfl hr' hsame hl hv
  obtain ⟨d, rfl, hd⟩ := (hread.rounded nofun).exact v hv (by decide)
  exact ⟨hr, hvalid, hr', hsame, hl, hv, d, htable, hd⟩

/-- The amount 1234567890123456.78 is read as 1234567890123456.8. -/
theorem amount_rounded :
    let l : Literal := ⟨false, "1234567890123456".toList, some "78".toList, by decide, by decide⟩
    let v : Decimal := { negative := false, magnitude := 123456789012345678, scale := 2 }
    let d : Decimal := { negative := false, magnitude := 12345678901234568, scale := 1 }
    let r : NamedRow := ⟨[.op, .user, .amount], ["admin_credit", "1", l.text], by decide⟩
    let bs := "op,user,amount\nadmin_credit,1,1234567890123456.78\n".toUTF8.toList
    v.toRat = l.toRat ∧ r.StandsIn bs 0 ∧ ofTable bs = [.ok (.adminCredit 1 d "")] ∧
      d.toRat ≠ l.toRat := by
  intro l v d r bs
  have hv : v.toRat = l.toRat := Literal.toRat_eq rfl (by decide +kernel) (by decide +kernel)
  have hr : r.StandsIn bs 0 := ⟨by decide +kernel, by decide +kernel⟩
  refine ⟨hv, hr, by decide +kernel, ?_⟩
  rw [← hv]
  norm_num [v, d, Decimal.toRat, Decimal.mantissa]

end Operation

end Paybook
