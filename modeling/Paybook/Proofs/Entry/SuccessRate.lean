import Paybook.Proofs.Decimal.Quotient
import Paybook.Proofs.Entry.Summary

/-! # Success rates

The success rate of a summary depends on how many entries there are and how many of them are
completed, and not on amounts. It is a percentage, rises at most with a completed entry and falls at
most with another one, and is as near to the exact share as its two places allow:
`OrderSummary.success_rate_follows`. -/

namespace Paybook

open Decimal

/-- The completed entries of a list in percent of all, as a summary shows them. -/
def completedShare (es : List Entry) : Decimal :=
  percentage (countStatus .completed es) es.length

/-- The same without rounding; nothing of no entries. -/
def exactCompletedShare (es : List Entry) : ℚ :=
  if es = [] then 0 else 100 * countStatus .completed es / es.length

theorem countStatus_le_length (status : Status) (es : List Entry) :
    countStatus status es ≤ es.length := List.countP_le_length

theorem countStatus_append_singleton (e : Entry) (es : List Entry) :
    countStatus .completed (es ++ [e]) =
      countStatus .completed es + if e.isCompleted then 1 else 0 := by
  rw [countStatus_append]
  simp [countStatus, List.countP_cons, Entry.isCompleted]

/-- One more part that counts does not make a share smaller. -/
theorem share_le_succ {part whole : Nat} (h : part ≤ whole) :
    (part : ℚ) / whole ≤ (part + 1 : Nat) / (whole + 1 : Nat) := by
  rcases Nat.eq_zero_or_pos whole with rfl | hw
  · simp
    positivity
  · have hw' : (0 : ℚ) < whole := by exact_mod_cast hw
    have h' : (part : ℚ) ≤ whole := by exact_mod_cast h
    push_cast
    rw [div_le_div_iff₀ hw' (by positivity)]
    linarith

/-- One more part that does not count does not make a share larger. -/
theorem share_succ_le {part whole : Nat} (h : part ≤ whole) :
    (part : ℚ) / (whole + 1 : Nat) ≤ part / whole := by
  rcases Nat.eq_zero_or_pos whole with rfl | hw
  · simp [Nat.le_zero.1 h]
  · have hw' : (0 : ℚ) < whole := by exact_mod_cast hw
    push_cast
    gcongr
    linarith

theorem completedShare_le_append {e : Entry} (he : e.isCompleted = true) (es : List Entry) :
    (completedShare es).toRat ≤ (completedShare (es ++ [e])).toRat := by
  have hle := countStatus_le_length .completed es
  rw [completedShare, completedShare, countStatus_append_singleton, if_pos he, List.length_append]
  exact percentage_mono hle (Nat.add_le_add_right hle 1) (share_le_succ hle)

theorem completedShare_append_le {e : Entry} (he : e.isCompleted = false) (es : List Entry) :
    (completedShare (es ++ [e])).toRat ≤ (completedShare es).toRat := by
  have hle := countStatus_le_length .completed es
  rw [completedShare, completedShare, countStatus_append_singleton, if_neg (by simp [he]),
    List.length_append]
  exact percentage_mono (Nat.le_succ_of_le hle) hle (share_succ_le hle)

theorem completedShare_nil : completedShare [] = zero := rfl

theorem abs_completedShare_sub_le {es : List Entry} (hlt : es.length < Text.wordLimit) :
    |(completedShare es).toRat - exactCompletedShare es| ≤ 1 / 200 := by
  cases es with
  | nil => simp [completedShare_nil, exactCompletedShare]
  | cons e es =>
    rw [exactCompletedShare, if_neg (List.cons_ne_nil e es)]
    exact abs_percentage_sub_le (List.length_pos_of_ne_nil (List.cons_ne_nil e es))
      (countStatus_le_length _ _) (hlt.trans (by decide))

namespace OrderSummary

theorem successRate_of_of? {es : List Entry} {m : OrderSummary} (h : of? es = some m) :
    m.successRate = completedShare es := by
  simp only [of?, Option.bind_eq_bind, Option.bind_eq_some_iff] at h
  obtain ⟨x, -, y, -, z, -, ⟨⟩⟩ := h
  rfl

/-- The success rate of every list of entries is the rounded share of its completed entries, which
is between 0 and 100, does not fall with a completed entry behind the others, does not rise with
another one, differs from the exact share by half a hundredth at most, and is zero for no entries. A
summary counts in machine words, so that a list has fewer than `2 ^ 64` entries. -/
theorem success_rate_follows (es : List Entry) :
    (∀ m, of? es = some m → m.successRate = completedShare es) ∧
    (0 ≤ (completedShare es).toRat ∧ (completedShare es).toRat ≤ 100) ∧
    (∀ e, e.isCompleted = true → completedShare es ≤ completedShare (es ++ [e])) ∧
    (∀ e, e.isCompleted = false → completedShare (es ++ [e]) ≤ completedShare es) ∧
    (es.length < Text.wordLimit →
      |(completedShare es).toRat - exactCompletedShare es| ≤ 1 / 200) ∧
    completedShare [] = zero :=
  ⟨fun _ => successRate_of_of?, percentage_bounds (countStatus_le_length _ es),
    fun _ he => le_iff_toRat.2 (completedShare_le_append he es),
    fun _ he => le_iff_toRat.2 (completedShare_append_le he es), abs_completedShare_sub_le,
    completedShare_nil⟩

/-- Five of seven entries are 71.43 percent, and one in thirty-two rounds to the even neighbour. -/
example : percentage 5 7 = { negative := false, magnitude := 7143, scale := 2 } ∧
    percentage 1 32 = { negative := false, magnitude := 312, scale := 2 } := by
  decide

end OrderSummary

end Paybook
