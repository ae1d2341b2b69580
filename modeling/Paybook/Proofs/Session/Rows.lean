import Mathlib.Data.List.Basic
import Paybook.Session.Operation

/-! # Rows apart from each other

The scanner of a table stands at its start again behind every line that ends outside of a quoted
field. So behind a heading whole lines may be read apart from what follows them, whatever they hold:
`Operation.ofTable_append`. -/

namespace Paybook

namespace Csv

/-! ## What the scanner keeps -/

namespace Scanner

variable {s : Scanner} {b : UInt8} {bs more : List UInt8}

/-- The scanner behind some bytes. -/
def feed (s : Scanner) (bs : List UInt8) : Scanner := bs.foldl (fun s b => (s.step b).1) s

theorem feed_append (s : Scanner) (bs more : List UInt8) :
    s.feed (bs ++ more) = (s.feed bs).feed more :=
  List.foldl_append

/-- The end of a line that is not in a quoted field leaves nothing behind. -/
theorem step_of_lineEnd (hb : b = lineFeed ∨ b = carriageReturn)
    (hs : (s.step b).1.place ≠ .quoted) : (s.step b).1 = start := by
  have hquote : b ≠ quote := by rcases hb with rfl | rfl <;> decide
  have hcomma : b ≠ comma := by rcases hb with rfl | rfl <;> decide
  have hplain : s.plainStep b = (start, some s.record) := by
    rw [plainStep, if_neg hcomma, if_pos hb]
  unfold step at hs ⊢
  cases hplace : s.place with
  | outside => simp only [if_pos hb]
  | fieldStart | plain | mark => simp only [if_neg hquote, hplain]
  | quoted =>
    simp only [hplace, if_neg hquote] at hs
    exact absurd rfl hs

/-- Where no record is open, the records so far are those of the bytes so far. -/
theorem records_append (h : (s.feed bs).place = .outside) :
    s.records (bs ++ more) = s.records bs ++ (s.feed bs).records more := by
  induction bs generalizing s with
  | nil =>
    have hnone : s.records [] = [] := by
      change s.place = .outside at h
      rw [records, finish, h]
      rfl
    rw [hnone]
    rfl
  | cons b bs ih =>
    have hrest : (s.step b).1.records (bs ++ more) = _ := ih h
    change _ = _ ++ ((s.step b).1.feed bs).records more
    rw [List.cons_append, records, records]
    -- The byte ends a record or it does not.
    rcases hstep : s.step b with ⟨s', _ | r⟩
    · simpa only [hstep] using hrest
    · simpa only [hstep, List.cons_append, List.cons.injEq, true_and] using hrest

end Scanner

/-! ## Whole lines -/

/-- Whether bytes are whole lines, if there are any: the last one ends a line and does not stand in
a quoted field. -/
def WholeLines (bs : List UInt8) : Prop :=
  bs = [] ∨ (∃ front b, bs = front ++ [b] ∧ (b = lineFeed ∨ b = carriageReturn)) ∧
    (Scanner.start.feed bs).place ≠ .quoted

/-- Whether bytes are the heading of a table: whole lines that have one record. -/
structure IsHeading (bs : List UInt8) : Prop where
  lines : WholeLines (withoutMark bs)
  single : (records bs).length = 1

variable {bs more : List UInt8}

theorem WholeLines.feed_eq (h : WholeLines bs) : Scanner.start.feed bs = .start := by
  rcases h with rfl | ⟨⟨front, b, rfl, hb⟩, hplace⟩
  · rfl
  · rw [Scanner.feed_append] at hplace ⊢
    exact Scanner.step_of_lineEnd hb hplace

/-- Whole lines are read apart from what follows them. -/
theorem WholeLines.records_append (h : WholeLines bs) :
    Scanner.start.records (bs ++ more) =
      Scanner.start.records bs ++ Scanner.start.records more := by
  have hfeed := h.feed_eq
  rw [Scanner.records_append (by rw [hfeed]; rfl), hfeed]

theorem withoutMark_cases (bs : List UInt8) :
    (∃ rest, bs = 0xef :: 0xbb :: 0xbf :: rest ∧ withoutMark bs = rest) ∨
      (∀ rest, bs ≠ 0xef :: 0xbb :: 0xbf :: rest) ∧ withoutMark bs = bs := by
  unfold withoutMark
  split
  · next rest => exact .inl ⟨rest, rfl, rfl⟩
  · next hmark => exact .inr ⟨hmark, rfl⟩

/-- The end of a line is not part of a mark, so no mark is put together from a line and what follows
it. -/
theorem WholeLines.withoutMark_append (h : WholeLines (withoutMark bs))
    (hne : withoutMark bs ≠ []) : withoutMark (bs ++ more) = withoutMark bs ++ more := by
  rcases withoutMark_cases bs with ⟨rest, rfl, -⟩ | ⟨hmark, hsame⟩
  · rfl
  · rw [hsame] at h hne ⊢
    obtain ⟨⟨front, b, rfl, hb⟩, -⟩ := h.resolve_left hne
    rcases withoutMark_cases (front ++ [b] ++ more) with ⟨rest, heq, -⟩ | ⟨-, hsame'⟩
    · exfalso
      have hfirst : (0xef : UInt8) ≠ b := by rcases hb with rfl | rfl <;> decide
      have hsecond : (0xbb : UInt8) ≠ b := by rcases hb with rfl | rfl <;> decide
      have hthird : (0xbf : UInt8) ≠ b := by rcases hb with rfl | rfl <;> decide
      rcases front with _ | ⟨b₁, _ | ⟨b₂, _ | ⟨b₃, front⟩⟩⟩
      · exact hfirst (List.cons.inj heq).1.symm
      · exact hsecond (List.cons.inj (List.cons.inj heq).2).1.symm
      · exact hthird (List.cons.inj (List.cons.inj (List.cons.inj heq).2).2).1.symm
      · simp only [List.cons_append, List.cons.injEq] at heq
        obtain ⟨rfl, rfl, rfl, -⟩ := heq
        exact hmark _ rfl
    · exact hsame'

theorem IsHeading.records_append (h : IsHeading bs) (more : List UInt8) :
    records (bs ++ more) = records bs ++ Scanner.start.records more := by
  have hne : withoutMark bs ≠ [] := by
    intro hnil
    have hsingle := h.single
    rw [records, hnil] at hsingle
    cases hsingle
  rw [records, h.lines.withoutMark_append hne, h.lines.records_append, records]

end Csv

namespace Operation

open Csv

variable {heading before after : List UInt8}

/-- Behind a heading each record is an operation of its own. -/
theorem ofTable_heading_append (h : IsHeading heading) :
    ∃ header, ∀ rows, ofTable (heading ++ rows) =
      (Scanner.start.records rows).map (ofRecord header) := by
  obtain ⟨names, hnames⟩ := List.length_eq_one_iff.1 h.single
  refine ⟨.ofRecord names, fun rows => ?_⟩
  rw [ofTable, h.records_append, hnames]
  rfl

/-- Behind a heading whole lines ask for the same with whatever lines there are behind them, and the
lines behind them for the same as without them, whatever is wrong with any of them. -/
theorem ofTable_append (h : IsHeading heading) (hb : WholeLines before) :
    ofTable (heading ++ before ++ after) =
      ofTable (heading ++ before) ++ ofTable (heading ++ after) := by
  obtain ⟨header, hrows⟩ := ofTable_heading_append h
  rw [List.append_assoc, hrows, hrows, hrows, hb.records_append, List.map_append]

/-- Behind a heading with a byte order mark come a row of an unknown operation, a row that is no
text, a row that is too short, and a row whose note has the end of a line in it; the last row is not
closed. -/
theorem ofTable_append_of_bad_rows :
    let heading := [0xef, 0xbb, 0xbf] ++ "op, user ,\"amount\",note\r\n".toUTF8.toList
    let before := "teleport,1,5\n".toUTF8.toList ++ [0xff, 0x0d] ++
      "\ncharge,1\n\nuser,1,,\"A\nB\"\n".toUTF8.toList
    let after := "user,2,,\"Ada".toUTF8.toList
    IsHeading heading ∧ WholeLines before ∧
      ofTable (heading ++ before) = [.error unreadable, .error unreadable,
        .error (.invalidArgument "Charge operation requires the `amount` column"),
        .ok (.user 1 "A\nB")] ∧
      ofTable (heading ++ before ++ after) =
        ofTable (heading ++ before) ++ [.ok (.user 2 "Ada")] := by
  intro heading before after
  have hheading : IsHeading heading := by
    refine ⟨.inr ⟨⟨"op, user ,\"amount\",note\r".toUTF8.toList, lineFeed, ?_, .inl rfl⟩, ?_⟩,
      ?_⟩ <;> decide +kernel
  have hbefore : WholeLines before := by
    refine .inr ⟨⟨before.dropLast, lineFeed, ?_, .inl rfl⟩, ?_⟩ <;> decide +kernel
  have hafter : ofTable (heading ++ after) = [.ok (.user 2 "Ada")] := by decide +kernel
  refine ⟨hheading, hbefore, by decide +kernel, ?_⟩
  rw [ofTable_append hheading hbefore, hafter]

end Operation

end Paybook
