import Mathlib.Data.List.Perm.Basic
import Paybook.Session.Operation

/-! # Rows by column names

What a row asks for depends on the texts under the names of its columns alone: not on the order of
the columns, not on columns that are left out or left blank, and not on fields past the header:
`Operation.read_by_column_name`. -/

namespace Paybook

namespace Csv

variable {α β : Type}

theorem mem_zip_iff {as : List α} {bs : List β} {a : α} {b : β} :
    (a, b) ∈ as.zip bs ↔ ∃ i : Nat, as[i]? = some a ∧ bs[i]? = some b := by
  simp only [List.mem_iff_getElem?, List.getElem?_zip_eq_some]

/-- Where no key is there twice, a pair is found under its key. -/
theorem lookup_eq_some_iff_mem [BEq α] [LawfulBEq α] {l : List (α × β)} {a : α} {b : β}
    (h : (l.map Prod.fst).Nodup) : l.lookup a = some b ↔ (a, b) ∈ l := by
  induction l with
  | nil => exact ⟨nofun, nofun⟩
  | cons x l ih =>
    obtain ⟨hx, hl⟩ := List.nodup_cons.1 h
    rw [List.lookup_cons, List.mem_cons]
    -- At its key the first pair is the only one; at any other key it is not there.
    by_cases ha : a = x.1
    · subst ha
      have hother : (x.1, b) ∉ l := fun hmem => hx (List.mem_map.2 ⟨_, hmem, rfl⟩)
      rw [beq_self_eq_true, or_iff_left hother, Option.some_inj]
      exact ⟨fun hb => Prod.ext rfl hb.symm, fun hb => (congrArg Prod.snd hb).symm⟩
    · have hother : (a, b) ≠ x := fun hb => ha (congrArg Prod.fst hb)
      rw [beq_false_of_ne ha, or_iff_right hother]
      exact ih hl

/-! ## Rows that agree -/

/-- Known columns, each of them once, and the trimmed fields of a record below them. The record may
be shorter than the header, or longer. -/
structure NamedRow where
  columns : List Column
  fields : List String
  distinct : columns.Nodup

namespace NamedRow

/-- The fields that are not empty, with their columns. -/
def cells (r : NamedRow) : List (Column × String) :=
  (r.columns.zip r.fields).filter fun cell => cell.2 ≠ ""

/-- Whether two rows have the same text in every column, or none in both. -/
def Agrees (r r' : NamedRow) : Prop := ∀ cell, cell ∈ r.cells ↔ cell ∈ r'.cells

/-- Whether a row is the record of a number behind the header of a table. -/
structure StandsIn (r : NamedRow) (bs : List UInt8) (i : Nat) : Prop where
  header : (records bs)[0]?.bind texts? = some (r.columns.map Column.name)
  record : (records bs)[i + 1]?.bind texts? = some r.fields

variable {r r' r'' : NamedRow} {c : Column} {text : String}

theorem mem_cells : (c, text) ∈ r.cells ↔ (c, text) ∈ r.columns.zip r.fields ∧ text ≠ "" := by
  rw [cells, List.mem_filter, decide_eq_true_iff]

theorem Agrees.trans (h : r.Agrees r') (h' : r'.Agrees r'') : r.Agrees r'' := fun cell =>
  (h cell).trans (h' cell)

/-- Columns may change places, their fields with them. -/
theorem agrees_of_perm (h : (r.columns.zip r.fields).Perm (r'.columns.zip r'.fields)) :
    r.Agrees r' := fun _ => (h.filter _).mem_iff

/-- Fields may be added at the end of a row, if those that come below a column are blank. -/
theorem agrees_append (r : NamedRow) {more : List String}
    (h : ∀ field ∈ more.take (r.columns.length - r.fields.length), field = "") :
    r.Agrees { r with fields := r.fields ++ more } := by
  rintro ⟨c, text⟩
  rw [mem_cells, mem_cells, mem_zip_iff, mem_zip_iff]
  constructor
  · rintro ⟨⟨i, hc, ht⟩, hne⟩
    refine ⟨⟨i, hc, ?_⟩, hne⟩
    rw [List.getElem?_append_left (List.getElem?_eq_some_iff.1 ht).1, ht]
  · rintro ⟨⟨i, hc, ht⟩, hne⟩
    refine ⟨⟨i, hc, ?_⟩, hne⟩
    rcases Nat.lt_or_ge i r.fields.length with hi | hi
    · rwa [List.getElem?_append_left hi] at ht
    · rw [List.getElem?_append_right hi] at ht
      have hlen : i < r.columns.length := (List.getElem?_eq_some_iff.1 hc).1
      refine absurd (h text (List.mem_of_getElem? (i := i - r.fields.length) ?_)) hne
      rw [List.getElem?_take_of_lt (by omega), ht]

/-! ## What is read of a row -/

/-- Below known columns every field is assigned, and a column without a field is empty. -/
theorem assign_map_some (columns : List Column) (fields : List String) :
    ∃ cells, assign (columns.map some) fields = some cells ∧ cells.map Prod.fst = columns ∧
      ∀ c text, (c, some text) ∈ cells ↔ (c, text) ∈ columns.zip fields := by
  induction columns generalizing fields with
  | nil => exact ⟨[], rfl, rfl, fun c text => ⟨nofun, nofun⟩⟩
  | cons column columns ih =>
    obtain ⟨cells, hassign, hcolumns, hmem⟩ := ih fields.tail
    refine ⟨(column, fields.head?) :: cells, ?_, ?_, fun c text => ?_⟩
    · rw [List.map_cons, assign, hassign, Option.map_some]
    · rw [List.map_cons, hcolumns]
    · rw [List.mem_cons, hmem]
      cases fields with
      | nil => simp
      | cons field fields => simp [Prod.ext_iff]

/-- A row is read, and each column of it is the cell of that column. -/
theorem ofFields?_columns (r : NamedRow) :
    ∃ row, Row.ofFields? (r.columns.map some) r.fields = some row ∧
      ∀ c text, row c = some text ↔ (c, text) ∈ r.cells := by
  obtain ⟨cells, hassign, hcolumns, hmem⟩ := assign_map_some r.columns r.fields
  have hdistinct : (cells.map Prod.fst).Nodup := hcolumns ▸ r.distinct
  refine ⟨fun c => ((cells.lookup c).bind id).filter (· ≠ ""), ?_, fun c text => ?_⟩
  · rw [Row.ofFields?, hassign]
    exact if_pos hdistinct
  · rw [mem_cells, ← hmem, ← lookup_eq_some_iff_mem hdistinct, Option.filter_eq_some_iff,
      Option.bind_eq_some_iff, decide_eq_true_iff]
    simp

/-- Rows that agree are read as the same row. -/
theorem ofFields?_eq_of_agrees (h : r.Agrees r') :
    Row.ofFields? (r.columns.map some) r.fields =
      Row.ofFields? (r'.columns.map some) r'.fields := by
  obtain ⟨row, hread, hrow⟩ := r.ofFields?_columns
  obtain ⟨row', hread', hrow'⟩ := r'.ofFields?_columns
  have hsame : row = row' := by
    funext c
    exact Option.ext fun text => (hrow c text).trans ((h (c, text)).trans (hrow' c text).symm)
  rw [hread, hread', hsame]

end NamedRow

theorem Column.ofName?_name (c : Column) : Column.ofName? c.name = some c := by
  cases c <;> decide

/-- A header of known columns names them. -/
theorem Header.ofRecord_of_texts {h : Record} {columns : List Column}
    (htexts : texts? h = some (columns.map Column.name)) :
    Header.ofRecord h = columns.map some := by
  rw [Header.ofRecord, htexts]
  change (columns.map Column.name).map Column.ofName? = columns.map some
  rw [List.map_map]
  exact List.map_congr_left fun c _ => c.ofName?_name

end Csv

namespace Operation

open Csv

/-- What the record of a row asks for. -/
theorem ofTable_of_standsIn {r : NamedRow} {bs : List UInt8} {i : Nat} (h : r.StandsIn bs i) :
    (ofTable bs)[i]? = some
      (match (Row.ofFields? (r.columns.map some) r.fields).bind Cells.ofRow? with
      | some cells => cells.operation
      | none => .error unreadable) := by
  obtain ⟨names, hnames, hheader⟩ := Option.bind_eq_some_iff.1 h.header
  obtain ⟨fields, hfields, htexts⟩ := Option.bind_eq_some_iff.1 h.record
  unfold ofTable
  cases hrecords : records bs with
  | nil => rw [hrecords] at hnames; cases hnames
  | cons first rest =>
    rw [hrecords] at hnames hfields
    cases hnames
    have hrow : rest[i]? = some fields := hfields
    rw [List.getElem?_map, hrow, Option.map_some, ofRecord, htexts,
      Header.ofRecord_of_texts hheader]
    rfl

/-- Whatever the order of its columns, and however many columns are left out or left blank or fields
are added past the header, a row of a table asks for the same, or fails in the same way. -/
theorem read_by_column_name {r r' : NamedRow} {bs bs' : List UInt8} {i j : Nat}
    (hr : r.StandsIn bs i) (hr' : r'.StandsIn bs' j) (h : r.Agrees r') :
    ∃ result, (ofTable bs)[i]? = some result ∧ (ofTable bs')[j]? = some result := by
  refine ⟨_, ofTable_of_standsIn hr, ?_⟩
  rw [ofTable_of_standsIn hr', NamedRow.ofFields?_eq_of_agrees h]

/-- A row without its last field, and the same row with its columns in another order, that field
blank and one field more: both ask for the same credit. -/
theorem read_by_column_name_of_note_left_out :
    let r : NamedRow := ⟨[.op, .user, .amount, .note], ["admin_credit", "2", "1.50"], by decide⟩
    let r' : NamedRow :=
      ⟨[.note, .op, .amount, .user], ["", "admin_credit", "1.50", "2", "more"], by decide⟩
    let bs := "op,user,amount,note\nadmin_credit,2,1.50\n".toUTF8.toList
    let bs' := "note, op, amount, user\n\"\", admin_credit , 1.50, 2, more\n".toUTF8.toList
    let credit : Operation := .adminCredit 2 { negative := false, magnitude := 15, scale := 1 } ""
    r.StandsIn bs 0 ∧ r'.StandsIn bs' 0 ∧ r.Agrees r' ∧
      (ofTable bs)[0]? = some (.ok credit) ∧ (ofTable bs')[0]? = some (.ok credit) := by
  intro r r' bs bs' credit
  have hr : r.StandsIn bs 0 := ⟨by decide +kernel, by decide +kernel⟩
  have hr' : r'.StandsIn bs' 0 := ⟨by decide +kernel, by decide +kernel⟩
  have hblank : r.Agrees { r with fields := ["admin_credit", "2", "1.50", ""] } :=
    r.agrees_append (by decide)
  have hplaces : NamedRow.Agrees { r with fields := ["admin_credit", "2", "1.50", ""] }
      { r' with fields := ["", "admin_credit", "1.50", "2"] } :=
    NamedRow.agrees_of_perm (by decide)
  have hmore : NamedRow.Agrees { r' with fields := ["", "admin_credit", "1.50", "2"] } r' :=
    NamedRow.agrees_append { r' with fields := ["", "admin_credit", "1.50", "2"] } (by decide)
  have h : r.Agrees r' := (hblank.trans hplaces).trans hmore
  have hread : (ofTable bs)[0]? = some (.ok credit) := by decide +kernel
  obtain ⟨result, hresult, hresult'⟩ := read_by_column_name hr hr' h
  obtain rfl := Option.some.inj (hresult.symm.trans hread)
  exact ⟨hr, hr', h, hread, hresult'⟩

end Operation

end Paybook
