import Paybook.Proofs.Decimal.Normal
import Paybook.Proofs.Entry.Summary
import Paybook.Proofs.Service.Range
import Paybook.Proofs.Service.Reporting

/-! # Lines of reports

A line of a report is put together from the balance of a wallet and from the summary of a history,
which lists the entries in an order of its own. When there is a report, every line of it says of its
user what the book says: `Session.report_faithful`. -/

namespace Paybook

open Program Time

/-! ## What a summary says of the store -/

namespace Store

/-- The entries of a user. -/
def ofUser (s : Store) (user : Nat) : List Entry := s.entries.filter fun e => e.user == user

theorem query_user (s : Store) (user : Nat) : s.query { user := some user } = s.ofUser user := by
  refine List.filter_congr fun e _ => ?_
  rw [Bool.eq_iff_iff, selects_user, beq_iff_eq]

end Store

/-- A summary that is returned is that of the listed history. -/
theorem History.of?_of_run_orderSummary {w : World} {user : Nat} {m : OrderSummary} (hw : w.Calm)
    (h : ((orderSummary user).run w).1 = .returned m) :
    OrderSummary.of? (newestFirst (w.store.ofUser user)) = some m := by
  obtain ⟨es, hes, hm⟩ := ((Inquiry.ofUser user).vets.run_bind_eq_returned hw).1 h
  obtain ⟨-, -, hfetch⟩ := ((vets_requireId user "User").run_bind_eq_returned hw).1 hes
  rw [run_fetch hw, Store.query_user] at hfetch
  cases hfetch
  exact run_inRange_eq_returned.1 hm

/-- A summary that is returned has the numbers of the entries of the user. -/
theorem History.counts_of_run_orderSummary {w : World} {user : Nat} {m : OrderSummary} (hw : w.Calm)
    (h : ((orderSummary user).run w).1 = .returned m) : m.Counts (w.store.ofUser user) :=
  (OrderSummary.counts_of_of? (of?_of_run_orderSummary hw h)).of_perm (newestFirst_perm _).symm

/-! ## What a line says -/

namespace ReportLine

/-- Whether a text that has a point does not end with a zero. -/
def EndsShort (text : String) : Prop := '.' ∈ text.toList → text.toList.getLast? ≠ some '0'

/-- Whether a line says of its user what the book says. -/
structure Faithful (l : ReportLine) (w : World) : Prop where
  entries : l.entries = (w.store.ofUser l.user).length
  completed : l.completed = countStatus .completed (w.store.ofUser l.user)
  pending : l.pending = countStatus .pending (w.store.ofUser l.user)
  failed : l.failed = countStatus .failed (w.store.ofUser l.user)
  /-- The three numbers leave out the cancelled entries alone. -/
  uncancelled : l.completed + l.pending + l.failed +
    countStatus .cancelled (w.store.ofUser l.user) = l.entries
  /-- The balance has the value that the wallet holds. -/
  balance : ∃ b, ((Wallet.balance l.user).run w).1 = .returned b ∧
    l.balance.toRat = b.value.toRat
  /-- The sums have the values of those of the history. -/
  summary : ∃ m, ((History.orderSummary l.user).run w).1 = .returned m ∧
    l.spent.toRat = m.spent.toRat ∧ l.refunded.toRat = m.refunded.toRat ∧
    l.netSpent.toRat = m.netSpent.toRat ∧ l.successRate.toRat = m.successRate.toRat
  /-- No field with a point ends with a zero. -/
  printed : ∀ text ∈ l.fields, EndsShort text

theorem endsShort_normalize (d : Decimal) : EndsShort (toString d.normalize) := by
  rw [EndsShort, Decimal.toList_toString]
  exact d.getLast?_toChars_normalize

/-- A whole number is printed without a point. -/
theorem endsShort_toString (n : Nat) : EndsShort (toString n) := by
  intro hpoint
  rw [Text.toList_toString] at hpoint
  have hdigit := Text.isDigit_of_mem_writeNat hpoint
  cases hdigit

/-- The fields of a line that is made of a summary are whole numbers and normalized decimals. -/
theorem printed_ofSummary (user : Nat) (b : Balance) (m : OrderSummary) :
    ∀ text ∈ (ofSummary user b m).fields, EndsShort text := by
  simp only [fields, ofSummary, List.forall_mem_cons]
  exact ⟨endsShort_toString _, endsShort_normalize _, endsShort_toString _, endsShort_toString _,
    endsShort_toString _, endsShort_toString _, endsShort_normalize _, endsShort_normalize _,
    endsShort_normalize _, endsShort_normalize _, nofun⟩

end ReportLine

namespace Session

variable {w : World} {user : Nat}

theorem vets_line (user : Nat) : (line user).Vets :=
  (Inquiry.balance user).vets.bind fun _ =>
    (Inquiry.orderSummary user).vets.bind fun _ => vets_pure _

theorem vets_lines (users : List Nat) : (lines users).Vets := by
  induction users with
  | nil => exact vets_pure []
  | cons user users ih => exact (vets_line user).bind fun _ => ih.bind fun _ => vets_pure _

/-- A line that is returned is that of its user, and faithful. -/
theorem faithful_of_run_line (hw : w.Calm) {l : ReportLine}
    (h : ((line user).run w).1 = .returned l) : l.user = user ∧ l.Faithful w := by
  obtain ⟨b, hb, h⟩ := ((Inquiry.balance user).vets.run_bind_eq_returned hw).1 h
  obtain ⟨m, hm, h⟩ := ((Inquiry.orderSummary user).vets.run_bind_eq_returned hw).1 h
  obtain rfl : ReportLine.ofSummary user b m = l := by cases h; rfl
  have hcounts := History.counts_of_run_orderSummary hw hm
  refine ⟨rfl, hcounts.total, hcounts.completed, hcounts.pending, hcounts.failed, ?_,
    ⟨b, hb, b.value.toRat_normalize⟩, ⟨m, hm, m.spent.toRat_normalize, m.refunded.toRat_normalize,
      m.netSpent.toRat_normalize, m.successRate.toRat_normalize⟩,
    ReportLine.printed_ofSummary user b m⟩
  change m.completed + m.pending + m.failed + countStatus .cancelled (w.store.ofUser user) = m.total
  rw [hcounts.completed, hcounts.pending, hcounts.failed, hcounts.total]
  exact (length_eq_countStatus _).symm

/-- Lines that are returned belong to the users one by one, and are faithful. -/
theorem faithful_of_run_lines (hw : w.Calm) {users : List Nat} {ls : List ReportLine}
    (h : ((lines users).run w).1 = .returned ls) :
    ls.map ReportLine.user = users ∧ ∀ l ∈ ls, l.Faithful w := by
  induction users generalizing ls with
  | nil =>
    cases h
    exact ⟨rfl, nofun⟩
  | cons user users ih =>
    obtain ⟨l, hl, h⟩ := ((vets_line user).run_bind_eq_returned hw).1 h
    obtain ⟨rest, hrun, h⟩ := ((vets_lines users).run_bind_eq_returned hw).1 h
    obtain rfl : l :: rest = ls := by cases h; rfl
    obtain ⟨huser, hfaithful⟩ := faithful_of_run_line hw hl
    obtain ⟨husers, hall⟩ := ih hrun
    exact ⟨congrArg₂ List.cons huser husers, List.forall_mem_cons.2 ⟨hfaithful, hall⟩⟩

/-- Whatever operations a session was given and however they ended: when there is a report, its
lines are those of the users who have been registered, once each and in ascending order however
often they were registered, and each line is faithful. -/
theorem report_faithful (settings : Settings) (spareSeed admin : Nat) (zone : Zone) (now : Instant)
    (tokens : Nat → Token) (ops : List (Instant × Operation)) {ls : List ReportLine}
    (h : ((opening settings spareSeed admin zone now tokens).after ops).report = .returned ls) :
    (ls.map ReportLine.user).Pairwise (· < ·) ∧
      (∀ id, id ∈ ls.map ReportLine.user ↔ ∃ now name, (now, .user id name) ∈ ops) ∧
      ∀ l ∈ ls,
        l.Faithful ((opening settings spareSeed admin zone now tokens).after ops).world := by
  have hcalm := calm_after settings spareSeed admin zone now tokens ops
  obtain ⟨husers, hfaithful⟩ := faithful_of_run_lines hcalm h
  rw [husers]
  exact ⟨ids_ascending_after .nil, fun id => mem_ids_after.trans (or_iff_right List.not_mem_nil),
    hfaithful⟩

/-- Bob is registered twice and before Ada. He is credited one and a half and fails to be debited
nine; she cancels a bank transfer of five. -/
theorem report_faithful_of_registered_twice :
    let credit : Decimal := { negative := false, magnitude := 150, scale := 2 }
    let ops : List (Instant × Operation) := [(⟨0, 0⟩, .user 2 "Bob"), (⟨0, 0⟩, .user 1 "Ada"),
      (⟨0, 0⟩, .user 2 "Bobby"), (⟨0, 0⟩, .adminCredit 2 credit "gift"),
      (⟨0, 0⟩, .adminDebit 2 (.ofWord 9) "fee"), (⟨0, 0⟩, .charge 1 (.ofWord 5) .bankTransfer ""),
      (⟨0, 0⟩, .settle 2 .cancelled none none)]
    let v := (opening {} 0 1 .utc ⟨0, 0⟩ fun _ => 0).after ops
    let ls : List ReportLine :=
      [⟨1, .zero, 1, 0, 0, 0, .zero, .zero, .zero, .zero⟩,
        ⟨2, { negative := false, magnitude := 15, scale := 1 }, 1, 1, 0, 0, .zero, .zero, .zero,
          .ofWord 100⟩]
    v.report = .returned ls ∧ (ls.map ReportLine.user).Pairwise (· < ·) ∧
      (∀ id, id ∈ ls.map ReportLine.user ↔ ∃ now name, (now, .user id name) ∈ ops) ∧
      ∀ l ∈ ls, l.Faithful v.world := by
  intro credit ops v ls
  have hreport : v.report = .returned ls := by decide +kernel
  exact ⟨hreport, report_faithful {} 0 1 .utc ⟨0, 0⟩ (fun _ => 0) ops hreport⟩

end Session

end Paybook
