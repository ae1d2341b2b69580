import Paybook.Proofs.Entry.Exact
import Paybook.Service.History

/-! # Summaries of exact entries

The sums of a summary are those of the completed entries of a kind. When the entries are exact they
exist, are exact, and come out the same in whatever order the entries are listed, places included:
`Exact.sum?_perm`. So a summary is a rollup, which may be made of parts and in any order:
`OrderSummary.rolls_up`. -/

namespace Paybook

/-- The completed entries of a kind. -/
def completedOf (kind : EntryKind) (es : List Entry) : List Entry :=
  es.filter fun e => e.kind == kind && e.isCompleted

theorem completedOf_append (kind : EntryKind) (es es' : List Entry) :
    completedOf kind (es ++ es') = completedOf kind es ++ completedOf kind es' :=
  List.filter_append ..

/-! ## Entries in another order -/

section Perm

variable {es es' : List Entry}

theorem total_perm (h : es.Perm es') : total es = total es' := (h.map _).sum_eq

theorem Exact.of_perm (h : Exact es') (hp : es.Perm es') : Exact es :=
  h.of_mem (fun _ he => hp.mem_iff.1 he) (total_perm hp).le

theorem mostPlaces_perm (h : es.Perm es') : mostPlaces es = mostPlaces es' := by
  induction h with
  | nil => rfl
  | cons e _ ih => exact congrArg (max e.amount.value.scale) ih
  | swap e e' es => exact Nat.max_left_comm _ _ _
  | trans _ _ ih ih' => exact ih.trans ih'

theorem completedOf_perm (kind : EntryKind) (h : es.Perm es') :
    (completedOf kind es).Perm (completedOf kind es') := h.filter _

/-- A sum of exact amounts is the same decimal in whatever order they are added up: it is positive,
its value is the exact one, and it has as many places as the amount that has most of them. -/
theorem Exact.sum?_perm (h : Exact es) (hp : es.Perm es') :
    Decimal.sum? (es.map fun e => e.amount.value) =
      Decimal.sum? (es'.map fun e => e.amount.value) := by
  cases es with
  | nil => rw [List.nil_perm.1 hp]
  | cons e es =>
    obtain ⟨S, hS, hscale, hlt⟩ := h
    obtain ⟨d, hd, hs, hv⟩ := Decimal.sum?_exact hS hscale hlt
    obtain ⟨d', hd', hs', hv'⟩ := Decimal.sum?_exact hS
      (fun e' he' => hscale e' (hp.mem_iff.2 he')) (total_perm hp ▸ hlt)
    have hpos : d.IsPositive := by
      refine Decimal.isPositive_iff.2 ?_
      rw [hv, total_cons]
      linarith [e.amount.toRat_pos, total_nonneg es]
    have hvalue : d.toRat = d'.toRat := by rw [hv, hv', total_perm hp]
    have hplaces : d.scale = d'.scale := by rw [hs, hs', mostPlaces_perm hp]
    rw [hd, hd', hpos.eq_of_toRat hvalue hplaces]

theorem Exact.completedValues_perm (h : Exact es) (hp : es.Perm es') (kind : EntryKind) :
    Decimal.sum? (completedValues kind es) = Decimal.sum? (completedValues kind es') :=
  sum?_perm (h.sublist List.filter_sublist) (completedOf_perm kind hp)

theorem countStatus_perm (status : Status) (h : es.Perm es') :
    countStatus status es = countStatus status es' := h.countP_eq _

/-- Exact entries have one summary for orders, in whatever order they are listed. -/
theorem Exact.orderSummary_perm (h : Exact es) (hp : es.Perm es') :
    OrderSummary.of? es = OrderSummary.of? es' := by
  simp only [OrderSummary.of?, h.completedValues_perm hp, countStatus_perm _ hp, hp.length_eq]

/-- Exact entries have one summary for wallets, in whatever order they are listed. -/
theorem Exact.walletSummary_perm (h : Exact es) (hp : es.Perm es') :
    WalletSummary.of? es = WalletSummary.of? es' := by
  have hlength : ∀ kind, (completedValues kind es).length = (completedValues kind es').length :=
    fun kind => ((completedOf_perm kind hp).map _).length_eq
  simp only [WalletSummary.of?, h.completedValues_perm hp, hlength, hp.countP_eq]

end Perm

/-- A listing comes to what the entries come to. -/
theorem History.total_completedOf_newestFirst (kind : EntryKind) (es : List Entry) :
    total (completedOf kind (newestFirst es)) = total (completedOf kind es) :=
  total_perm (completedOf_perm kind (newestFirst_perm es))

theorem Exact.newestFirst {es : List Entry} (h : Exact es) : Exact (History.newestFirst es) :=
  h.of_perm (History.newestFirst_perm es)

/-! ## Sums -/

section Sums

variable {es : List Entry}

/-- The completed values of two kinds have exact sums and an exact difference. -/
theorem Exact.completedValues (h : Exact es) (kind kind' : EntryKind) :
    ∃ x y z, Decimal.sum? (completedValues kind es) = some x ∧
      Decimal.sum? (completedValues kind' es) = some y ∧ x.sub? y = some z ∧
      x.toRat = total (completedOf kind es) ∧ y.toRat = total (completedOf kind' es) ∧
      z.toRat = x.toRat - y.toRat := by
  obtain ⟨S, hS, hscale, hlt⟩ := h
  have hle : ∀ kind, total (completedOf kind es) ≤ total es := fun _ =>
    total_le_of_sublist List.filter_sublist
  have hsum : ∀ kind, ∃ d, Decimal.sum? (Paybook.completedValues kind es) = some d ∧
      d.scale ≤ S ∧ d.toRat = total (completedOf kind es) := fun kind => by
    have hplaces : ∀ e ∈ completedOf kind es, e.amount.value.scale ≤ S := fun e he =>
      hscale e (List.filter_sublist.subset he)
    obtain ⟨d, hd, hs, hv⟩ := Decimal.sum?_exact hS hplaces
      (lt_of_le_of_lt (mul_le_mul_of_nonneg_right (hle kind) (by positivity)) hlt)
    exact ⟨d, hd, hs.trans_le (mostPlaces_le hplaces), hv⟩
  obtain ⟨x, hx, hs, hv⟩ := hsum kind
  obtain ⟨y, hy, hs', hv'⟩ := hsum kind'
  have hdiff : |x.toRat - y.toRat| ≤ total es := by
    rw [hv, hv']
    exact abs_sub_le_of_nonneg_of_le (total_nonneg _) (hle _) (total_nonneg _) (hle _)
  obtain ⟨z, hz, -, hvz⟩ := Decimal.sub?_exact hS hs hs'
    (lt_of_le_of_lt (mul_le_mul_of_nonneg_right hdiff (by positivity)) hlt)
  exact ⟨x, y, z, hx, hy, hz, hv, hv', hvz⟩

/-- The summary of exact entries exists, and what was spent, what was refunded and the difference
are exact. -/
theorem Exact.orderSummary (h : Exact es) :
    ∃ sum, OrderSummary.of? es = some sum ∧ sum.spent.toRat = total (completedOf .payment es) ∧
      sum.refunded.toRat = total (completedOf .refund es) ∧
      sum.netSpent.toRat = sum.spent.toRat - sum.refunded.toRat := by
  obtain ⟨x, y, z, hx, hy, hz, hv, hv', hvz⟩ := h.completedValues .payment .refund
  have hof : ∃ sum, OrderSummary.of? es = some sum ∧ sum.spent = x ∧ sum.refunded = y ∧
      sum.netSpent = z := by
    simp only [OrderSummary.of?, hx, hy, hz, Option.bind_eq_bind, Option.bind_some]
    exact ⟨_, rfl, rfl, rfl, rfl⟩
  obtain ⟨sum, hsome, rfl, rfl, rfl⟩ := hof
  exact ⟨sum, hsome, hv, hv', hvz⟩

/-- So does their summary for wallets, and what was charged, what was withdrawn and the balance are
exact. -/
theorem Exact.walletSummary (h : Exact es) :
    ∃ sum, WalletSummary.of? es = some sum ∧ sum.charged.toRat = total (completedOf .charge es) ∧
      sum.withdrawn.toRat = total (completedOf .withdrawal es) ∧
      sum.balance.value.toRat = sum.charged.toRat - sum.withdrawn.toRat := by
  obtain ⟨x, y, z, hx, hy, hz, hv, hv', hvz⟩ := h.completedValues .charge .withdrawal
  have hof : ∃ sum, WalletSummary.of? es = some sum ∧ sum.charged = x ∧ sum.withdrawn = y ∧
      sum.balance = ⟨z⟩ := by
    simp only [WalletSummary.of?, hx, hy, hz, Option.bind_eq_bind, Option.bind_some]
    exact ⟨_, rfl, rfl, rfl, rfl⟩
  obtain ⟨sum, hsome, rfl, rfl, hbalance⟩ := hof
  refine ⟨sum, hsome, hv, hv', ?_⟩
  rw [hbalance]
  exact hvz

end Sums

/-! ## Counts -/

theorem countStatus_append (status : Status) (es es' : List Entry) :
    countStatus status (es ++ es') = countStatus status es + countStatus status es' :=
  List.countP_append

/-- Every entry has one of the four statuses. -/
theorem length_eq_countStatus (es : List Entry) :
    es.length = countStatus .completed es + countStatus .pending es + countStatus .failed es +
      countStatus .cancelled es := by
  induction es with
  | nil => rfl
  | cons e es ih =>
    simp only [countStatus] at ih
    simp only [countStatus, List.length_cons, List.countP_cons, ih]
    cases e.status <;> simp <;> omega

/-- The numbers of a summary for wallets are those of the completed entries. -/
theorem WalletSummary.counts_of_of? {es : List Entry} {m : WalletSummary} (h : of? es = some m) :
    m.charges = (completedOf .charge es).length ∧
      m.withdrawals = (completedOf .withdrawal es).length := by
  simp only [of?, Option.bind_eq_bind, Option.bind_eq_some_iff] at h
  obtain ⟨x, -, y, -, z, -, ⟨⟩⟩ := h
  exact ⟨List.length_map _, List.length_map _⟩

namespace OrderSummary

/-- Whether a summary has the numbers of these entries. -/
structure Counts (m : OrderSummary) (es : List Entry) : Prop where
  total : m.total = es.length
  completed : m.completed = countStatus .completed es
  pending : m.pending = countStatus .pending es
  failed : m.failed = countStatus .failed es
  cancelled : m.cancelled = countStatus .cancelled es

theorem Counts.of_perm {es es' : List Entry} {m : OrderSummary} (h : m.Counts es')
    (hp : es.Perm es') : m.Counts es where
  total := h.total.trans hp.length_eq.symm
  completed := h.completed.trans (countStatus_perm _ hp).symm
  pending := h.pending.trans (countStatus_perm _ hp).symm
  failed := h.failed.trans (countStatus_perm _ hp).symm
  cancelled := h.cancelled.trans (countStatus_perm _ hp).symm

theorem counts_of_of? {es : List Entry} {m : OrderSummary} (h : of? es = some m) :
    m.Counts es := by
  simp only [of?, Option.bind_eq_bind, Option.bind_eq_some_iff] at h
  obtain ⟨x, -, y, -, z, -, ⟨⟩⟩ := h
  exact ⟨rfl, rfl, rfl, rfl, rfl⟩

/-- Whether a summary is what two others come to together. -/
structure Joins (m front back : OrderSummary) : Prop where
  total : m.total = front.total + back.total
  completed : m.completed = front.completed + back.completed
  pending : m.pending = front.pending + back.pending
  failed : m.failed = front.failed + back.failed
  cancelled : m.cancelled = front.cancelled + back.cancelled
  spent : m.spent.toRat = front.spent.toRat + back.spent.toRat
  refunded : m.refunded.toRat = front.refunded.toRat + back.refunded.toRat
  netSpent : m.netSpent.toRat = front.netSpent.toRat + back.netSpent.toRat

/-- The summaries of two parts of exact entries exist and join to that of the whole. -/
theorem joins_append {front back : List Entry} (h : Exact (front ++ back)) :
    ∃ m f b, of? (front ++ back) = some m ∧ of? front = some f ∧ of? back = some b ∧
      m.Joins f b := by
  obtain ⟨m, hm, hspent, hrefunded, hnet⟩ := h.orderSummary
  obtain ⟨f, hf, hspent₁, hrefunded₁, hnet₁⟩ :=
    (h.sublist (List.sublist_append_left front back)).orderSummary
  obtain ⟨b, hb, hspent₂, hrefunded₂, hnet₂⟩ :=
    (h.sublist (List.sublist_append_right front back)).orderSummary
  have hcounts := counts_of_of? hm
  have hcounts₁ := counts_of_of? hf
  have hcounts₂ := counts_of_of? hb
  rw [completedOf_append, total_append, ← hspent₁, ← hspent₂] at hspent
  rw [completedOf_append, total_append, ← hrefunded₁, ← hrefunded₂] at hrefunded
  refine ⟨m, f, b, hm, hf, hb, ?_, ?_, ?_, ?_, ?_, hspent, hrefunded, ?_⟩
  · rw [hcounts.total, hcounts₁.total, hcounts₂.total, List.length_append]
  · rw [hcounts.completed, hcounts₁.completed, hcounts₂.completed, countStatus_append]
  · rw [hcounts.pending, hcounts₁.pending, hcounts₂.pending, countStatus_append]
  · rw [hcounts.failed, hcounts₁.failed, hcounts₂.failed, countStatus_append]
  · rw [hcounts.cancelled, hcounts₁.cancelled, hcounts₂.cancelled, countStatus_append]
  · rw [hnet, hnet₁, hnet₂, hspent, hrefunded]
    ring

/-- Exact entries have a summary. Each of them is counted under one status; however they are divided
into two lists, both of these have summaries, which join to it; and it is the same, share of
completed entries and places of all sums included, in whatever order they are listed. -/
theorem rolls_up {es : List Entry} (h : Exact es) :
    ∃ m, of? es = some m ∧ m.total = m.completed + m.pending + m.failed + m.cancelled ∧
      (∀ front back, (front ++ back).Perm es →
        ∃ f b, of? front = some f ∧ of? back = some b ∧ m.Joins f b) ∧
      ∀ es', es'.Perm es → of? es' = some m := by
  obtain ⟨m, hm, -⟩ := h.orderSummary
  refine ⟨m, hm, ?_, fun front back hp => ?_, fun es' hp => ?_⟩
  · have hcounts := counts_of_of? hm
    rw [hcounts.total, hcounts.completed, hcounts.pending, hcounts.failed, hcounts.cancelled]
    exact length_eq_countStatus es
  · have hparts := h.of_perm hp
    obtain ⟨m', f, b, hm', hf, hb, hjoins⟩ := joins_append hparts
    rw [hparts.orderSummary_perm hp, hm] at hm'
    cases hm'
    exact ⟨f, b, hf, hb, hjoins⟩
  · rw [(h.of_perm hp).orderSummary_perm hp, hm]

/-- A payment of a half, one of three that is awaited, a refund of a quarter and a payment that
failed: divided by whether they are payments of the first order, and listed from behind. -/
theorem rolls_up_of_each_status :
    let paid (id order : Nat) (a : Amount) : Entry :=
      .ofDraft id ⟨1, some order, a, .payment, .card, ""⟩ ⟨0, 0⟩
    let half := (paid 1 7 ⟨{ negative := false, magnitude := 5, scale := 1 }, by decide⟩).finished
      .completed ⟨1, 0⟩
    let awaited := paid 2 8 ⟨.ofWord 3, by decide⟩
    let refund : Entry := { half with
      id := 3, kind := .refund
      amount := ⟨{ negative := false, magnitude := 25, scale := 2 }, by decide⟩ }
    let declined := (paid 4 8 ⟨.ofWord 3, by decide⟩).finished .failed ⟨1, 0⟩
    let es := [half, awaited, refund, declined]
    Exact es ∧ ∃ m, of? es = some m ∧
      m.total = m.completed + m.pending + m.failed + m.cancelled ∧
      (∃ f b, of? [half, refund] = some f ∧ of? [awaited, declined] = some b ∧ m.Joins f b) ∧
      of? [declined, refund, awaited, half] = some m := by
  intro paid half awaited refund declined es
  have hx : Exact es := by
    refine ⟨2, by decide, by decide, ?_⟩
    have hthree : UInt64.toNat 3 = 3 := rfl
    norm_num [es, half, awaited, refund, declined, paid, Entry.ofDraft, Entry.finished,
      Decimal.toRat, Decimal.mantissa, Decimal.ofWord, hthree]
  obtain ⟨m, hm, hcounts, hparts, hany⟩ := rolls_up hx
  have hdivided : ([half, refund] ++ [awaited, declined]).Perm es :=
    .cons half (.swap awaited refund [declined])
  exact ⟨hx, m, hm, hcounts, hparts _ _ hdivided, hany _ (List.reverse_perm es)⟩

end OrderSummary

end Paybook
