import Mathlib.Data.List.Forall2
import Paybook.Proofs.Decimal.Normal
import Paybook.Session.Report

/-! # Written reports

A report is written line by line, and the header comes with the first line. No field of it needs
quotation marks, so the text can be cut at the ends of its lines and at its commas again, and the
fields read back as what they say: `ReportLine.write_decodable`. A report without lines has no
header either: `ReportLine.write_nil_lacks_header`. -/

namespace Paybook

open Text

/-! ## Cutting -/

/-- Lines are cut apart at their ends, and nothing stands behind the last one. -/
theorem splitOn_flatMap_append {α : Type*} [DecidableEq α] {a : α} {ls : List (List α)}
    (h : ∀ l ∈ ls, a ∉ l) : (ls.flatMap (· ++ [a])).splitOn a = ls ++ [[]] := by
  induction ls with
  | nil => exact List.splitOn_nil a
  | cons l ls ih =>
    obtain ⟨hl, hls⟩ := List.forall_mem_cons.1 h
    have hcut (rest : List α) : (l ++ a :: rest).splitOn a = l.splitOn a ++ rest.splitOn a :=
      List.splitOnP_append_cons l rest (beq_self_eq_true a)
    rw [List.flatMap_cons, List.append_assoc, List.singleton_append, hcut, ih hls,
      List.splitOn_eq_singleton hl, List.singleton_append, List.cons_append]

/-- A separated list holds the separator and what its parts hold. -/
theorem mem_of_mem_intercalate {α : Type*} {a c : α} {ls : List (List α)}
    (h : c ∈ [a].intercalate ls) : c = a ∨ ∃ l ∈ ls, c ∈ l := by
  induction ls with
  | nil => cases h
  | cons l ls ih =>
    cases ls with
    | nil =>
      rw [List.intercalate_singleton] at h
      exact .inr ⟨l, List.mem_cons_self, h⟩
    | cons l' ls =>
      rw [List.intercalate_cons_cons, List.mem_append, List.mem_append, List.mem_singleton] at h
      rcases h with (hl | rfl) | hrest
      · exact .inr ⟨l, List.mem_cons_self, hl⟩
      · exact .inl rfl
      · exact (ih hrest).imp_right fun ⟨l, hl, hc⟩ => ⟨l, List.mem_cons_of_mem _ hl, hc⟩

namespace ReportLine

/-- The records of a text without quotation marks: its lines, cut at the commas. -/
def cut (text : String) : List (List String) :=
  (text.toList.splitOn '\n').dropLast.map fun line => (line.splitOn ',').map String.ofList

/-! ## Fields -/

theorem needsMarks_eq_false {field : String} : needsMarks field = false ↔
    ∀ c ∈ field.toList, c ≠ ',' ∧ c ≠ '"' ∧ c ≠ '\n' ∧ c ≠ '\r' := by
  simp [needsMarks, and_assoc]

/-- No mark is needed for a field of digits, signs and points. -/
theorem needsMarks_of_numeral {field : String}
    (h : ∀ c ∈ field.toList, c.isDigit = true ∨ c = '-' ∨ c = '.') : needsMarks field = false := by
  refine needsMarks_eq_false.2 fun c hc => ?_
  rcases h c hc with hdigit | rfl | rfl
  · refine ⟨?_, ?_, ?_, ?_⟩ <;> (rintro rfl; cases hdigit)
  · decide
  · decide

theorem needsMarks_nat (n : Nat) : needsMarks (toString n) = false := by
  refine needsMarks_of_numeral fun c hc => .inl ?_
  rw [toList_toString] at hc
  exact isDigit_of_mem_writeNat hc

theorem needsMarks_decimal (d : Decimal) : needsMarks (toString d) = false := by
  refine needsMarks_of_numeral fun c hc => ?_
  rw [Decimal.toList_toString] at hc
  exact Decimal.mem_toChars hc

theorem needsMarks_of_mem_header : ∀ field ∈ header, needsMarks field = false := by decide

theorem needsMarks_of_mem_fields (l : ReportLine) :
    ∀ field ∈ l.fields, needsMarks field = false := by
  simp only [fields, List.forall_mem_cons]
  exact ⟨needsMarks_nat _, needsMarks_decimal _, needsMarks_nat _, needsMarks_nat _,
    needsMarks_nat _, needsMarks_nat _, needsMarks_decimal _, needsMarks_decimal _,
    needsMarks_decimal _, needsMarks_decimal _, nofun⟩

/-! ## Lines -/

/-- Whether a record is not empty and none of its fields needs marks. -/
structure Bare (record : List String) : Prop where
  ne_nil : record ≠ []
  unmarked : ∀ field ∈ record, needsMarks field = false

namespace Bare

variable {record : List String}

theorem writeLine_eq (h : Bare record) :
    writeLine record = String.intercalate "," record ++ "\n" := by
  have hsame : record.map writeField = record.map id := by
    refine List.map_congr_left fun field hfield => ?_
    rw [writeField, h.unmarked field hfield]
    rfl
  rw [writeLine, hsame, List.map_id]

theorem not_mem_of_mem (h : Bare record) {field : String} (hfield : field ∈ record) :
    ',' ∉ field.toList ∧ '\n' ∉ field.toList := by
  have hplain := needsMarks_eq_false.1 (h.unmarked field hfield)
  exact ⟨fun hc => (hplain _ hc).1 rfl, fun hc => (hplain _ hc).2.2.1 rfl⟩

/-- The characters of a line in front of its end. -/
def chars (record : List String) : List Char := [','].intercalate (record.map String.toList)

theorem toList_writeLine (h : Bare record) :
    (writeLine record).toList = chars record ++ ['\n'] := by
  rw [h.writeLine_eq, String.toList_append, String.toList_intercalate]
  rfl

theorem not_mem_chars (h : Bare record) : '\n' ∉ chars record := by
  intro hmem
  rcases mem_of_mem_intercalate hmem with hcomma | ⟨cs, hcs, hc⟩
  · revert hcomma
    decide
  · obtain ⟨field, hfield, rfl⟩ := List.mem_map.1 hcs
    exact (h.not_mem_of_mem hfield).2 hc

theorem splitOn_chars (h : Bare record) :
    (chars record).splitOn ',' = record.map String.toList := by
  refine List.splitOn_intercalate ',' (List.forall_mem_map.2 fun field hfield => ?_) ?_
  · exact (h.not_mem_of_mem hfield).1
  · simpa using h.ne_nil

theorem ofList_splitOn_chars (h : Bare record) :
    ((chars record).splitOn ',').map String.ofList = record := by
  rw [h.splitOn_chars, List.map_map]
  exact List.map_id'' (fun _ => String.ofList_toList) record

end Bare

/-- Bare records are cut apart again as they were written. -/
theorem cut_join {records : List (List String)} (h : ∀ record ∈ records, Bare record) :
    cut (String.join (records.map writeLine)) = records := by
  have htext : (String.join (records.map writeLine)).toList =
      (records.map Bare.chars).flatMap (· ++ ['\n']) := by
    rw [String.toList_join, List.flatMap_map, List.flatMap_map]
    exact List.flatMap_congr fun record hrecord => (h record hrecord).toList_writeLine
  have hlines : ∀ line ∈ records.map Bare.chars, '\n' ∉ line :=
    List.forall_mem_map.2 fun record hrecord => (h record hrecord).not_mem_chars
  rw [cut, htext, splitOn_flatMap_append hlines, List.dropLast_concat, List.map_map]
  conv_rhs => rw [← List.map_id records]
  exact List.map_congr_left fun record hrecord => (h record hrecord).ofList_splitOn_chars

/-! ## Reports line by line -/

/-- The records of a report: the header in front of the first line, and none without lines. -/
def table (ls : List ReportLine) : List (List String) :=
  if ls = [] then [] else header :: ls.map fields

/-- Whether a report is written as far as these lines. -/
structure Page.Shows (p : Page) (ls : List ReportLine) : Prop where
  headed : p.headed = true ↔ ls ≠ []
  text : p.text = String.join ((table ls).map writeLine)

theorem table_of_ne_nil {ls : List ReportLine} (h : ls ≠ []) : table ls = header :: ls.map fields :=
  if_neg h

/-- Every record of a report has ten fields, and none of them needs marks. -/
theorem of_mem_table {ls : List ReportLine} {record : List String} (h : record ∈ table ls) :
    record.length = 10 ∧ ∀ field ∈ record, needsMarks field = false := by
  by_cases hnil : ls = []
  · subst hnil
    cases h
  · rw [table_of_ne_nil hnil, List.mem_cons, List.mem_map] at h
    rcases h with rfl | ⟨l, -, rfl⟩
    · exact ⟨rfl, needsMarks_of_mem_header⟩
    · exact ⟨rfl, needsMarks_of_mem_fields l⟩

theorem bare_of_mem_table {ls : List ReportLine} {record : List String} (h : record ∈ table ls) :
    Bare record := by
  obtain ⟨hlength, hunmarked⟩ := of_mem_table h
  exact ⟨List.ne_nil_of_length_pos (by omega), hunmarked⟩

namespace Page

theorem shows_nil : Page.Shows {} [] := ⟨by simp, rfl⟩

variable {p : Page} {ls : List ReportLine}

/-- One more line shows one more line, with the header in front of it if it is the first. -/
theorem Shows.add (h : p.Shows ls) (l : ReportLine) : (p.add l).Shows (ls ++ [l]) := by
  have hne : ls ++ [l] ≠ [] := List.concat_ne_nil l ls
  refine ⟨iff_of_true rfl hne, ?_⟩
  rw [table_of_ne_nil hne]
  change (if p.headed then p.text else p.text ++ writeLine header) ++ writeLine l.fields = _
  rw [h.text]
  by_cases hnil : ls = []
  · subst hnil
    have hbare : ¬p.headed = true := fun hheaded => h.headed.1 hheaded rfl
    rw [if_neg hbare]
    simp [table]
  · rw [if_pos (h.headed.2 hnil), table_of_ne_nil hnil, List.map_append, ← List.cons_append,
      List.map_append, String.join_append]
    simp

theorem Shows.foldl (h : p.Shows ls) (more : List ReportLine) :
    (more.foldl Page.add p).Shows (ls ++ more) := by
  induction more generalizing p ls with
  | nil => rwa [List.append_nil]
  | cons l more ih =>
    rw [List.append_cons]
    exact ih (h.add l)

end Page

theorem write_eq_join (ls : List ReportLine) : write ls = String.join ((table ls).map writeLine) :=
  (Page.shows_nil.foldl ls).text

/-! ## Reading -/

/-- The line that the fields of a record write. -/
def read? : List String → Option ReportLine
  | [user, balance, entries, completed, pending, failed, spent, refunded, netSpent, rate] =>
    ReportLine.mk <$> readNat? user.toList <*> Decimal.parse? balance <*>
      readNat? entries.toList <*> readNat? completed.toList <*> readNat? pending.toList <*>
      readNat? failed.toList <*> Decimal.parse? spent <*> Decimal.parse? refunded <*>
      Decimal.parse? netSpent <*> Decimal.parse? rate
  | _ => none

/-- Whether two lines say the same, whatever the places of their decimals. -/
structure SameValues (a b : ReportLine) : Prop where
  user : a.user = b.user
  balance : a.balance.toRat = b.balance.toRat
  entries : a.entries = b.entries
  completed : a.completed = b.completed
  pending : a.pending = b.pending
  failed : a.failed = b.failed
  spent : a.spent.toRat = b.spent.toRat
  refunded : a.refunded.toRat = b.refunded.toRat
  netSpent : a.netSpent.toRat = b.netSpent.toRat
  successRate : a.successRate.toRat = b.successRate.toRat

theorem readNat?_toString (n : Nat) : readNat? (toString n).toList = some n := by
  rw [toList_toString]
  simpa [Time.zeroFilled] using Time.readNat?_zeroFilled 0 n

/-- The fields of a line read back. Only the sign of a zero is lost. -/
theorem exists_read?_fields (l : ReportLine) :
    ∃ l', read? l.fields = some l' ∧ SameValues l' l := by
  refine ⟨⟨l.user, l.balance.unsignedZero, l.entries, l.completed, l.pending, l.failed,
    l.spent.unsignedZero, l.refunded.unsignedZero, l.netSpent.unsignedZero,
    l.successRate.unsignedZero⟩, ?_, ?_⟩
  · simp only [fields, read?, readNat?_toString, Decimal.parse?_toString_unsigned]
    rfl
  · exact ⟨rfl, Decimal.toRat_unsignedZero _, rfl, rfl, rfl, rfl, Decimal.toRat_unsignedZero _,
      Decimal.toRat_unsignedZero _, Decimal.toRat_unsignedZero _, Decimal.toRat_unsignedZero _⟩

theorem exists_mapM_read? (ls : List ReportLine) :
    ∃ ls', (ls.map fields).mapM read? = some ls' ∧ List.Forall₂ SameValues ls' ls := by
  induction ls with
  | nil => exact ⟨[], rfl, .nil⟩
  | cons l ls ih =>
    obtain ⟨l', hl, hsame⟩ := exists_read?_fields l
    obtain ⟨ls', hls, hall⟩ := ih
    refine ⟨l' :: ls', ?_, .cons hsame hall⟩
    rw [List.map_cons, List.mapM_cons, hl, hls]
    rfl

/-- The text of a report is that of its records, each with commas between its ten fields, none of
which has marks, and with the end of a line behind it. The text is cut into these records again, and
those behind the header read back as the lines in their order. -/
theorem write_decodable (ls : List ReportLine) :
    write ls =
      String.join ((table ls).map fun record => String.intercalate "," record ++ "\n") ∧
    (∀ record ∈ table ls, record.length = 10 ∧ ∀ field ∈ record, needsMarks field = false) ∧
    cut (write ls) = table ls ∧
    ∃ ls', ((cut (write ls)).drop 1).mapM read? = some ls' ∧ List.Forall₂ SameValues ls' ls := by
  have hbare : ∀ record ∈ table ls, Bare record := fun record hrecord => bare_of_mem_table hrecord
  have hcut : cut (write ls) = table ls := by rw [write_eq_join, cut_join hbare]
  refine ⟨?_, fun record hrecord => of_mem_table hrecord, hcut, ?_⟩
  · rw [write_eq_join]
    exact congrArg String.join (List.map_congr_left fun record h => (hbare record h).writeLine_eq)
  · have hlines : (table ls).drop 1 = ls.map fields := by
      unfold table
      split
      · next hnil =>
        rw [hnil]
        rfl
      · rfl
    rw [hcut, hlines]
    exact exists_mapM_read? ls

/-- One line, behind the header. -/
example :
    write [⟨7, .ofWord 5, 4, 3, 1, 0, .ofWord 6, .ofWord 6, .zero, .ofWord 75⟩] =
      "user,balance,transactions,completed,pending,failed,total_spent,total_refunded,net_spent," ++
        "success_rate\n7,5,4,3,1,0,6,6,0,75\n" := by
  decide +kernel

/-- A report without lines is not the header alone, but nothing at all. -/
theorem write_nil_lacks_header :
    write [] = "" ∧ write [] ≠ String.join ((header :: [].map fields).map writeLine) := by
  decide +kernel

end ReportLine

end Paybook
