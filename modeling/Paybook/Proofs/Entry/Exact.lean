import Mathlib.Algebra.Order.BigOperators.Group.List
import Paybook.Entry.Summary
import Paybook.Proofs.Decimal.Value
import Paybook.Proofs.Entry.Origin

/-! # Entries whose sums are exact

Entries are `Exact` when their amounts are whole multiples of one unit that a decimal can have and
all of them together, counted in that unit, fit its magnitude. Then the balance of the entries
exists and is the exact one, in whatever order charges and withdrawals come:
`Balance.ofEntries?_exact`. -/

namespace Paybook

/-- The amounts of some entries together. -/
def total (es : List Entry) : ℚ := (es.map fun e => e.amount.value.toRat).sum

@[simp] theorem total_nil : total [] = 0 := rfl

@[simp] theorem total_cons (e : Entry) (es : List Entry) :
    total (e :: es) = e.amount.value.toRat + total es := List.sum_cons

theorem Amount.toRat_pos (a : Amount) : 0 < a.value.toRat := Decimal.isPositive_iff.1 a.positive

theorem total_nonneg (es : List Entry) : 0 ≤ total es := by
  induction es with
  | nil => exact le_refl _
  | cons e es ih => rw [total_cons]; linarith [e.amount.toRat_pos]

theorem total_le_of_sublist {es es' : List Entry} (h : es.Sublist es') : total es ≤ total es' := by
  induction h with
  | slnil => exact le_refl _
  | cons e _ ih => rw [total_cons]; linarith [e.amount.toRat_pos]
  | cons_cons e _ ih => rw [total_cons, total_cons]; linarith

theorem total_append (es es' : List Entry) : total (es ++ es') = total es + total es' := by
  rw [total, List.map_append, List.sum_append, total, total]

/-- The amounts of the entries of a sort add up over all entries. -/
theorem total_filter (p : Entry → Bool) (es : List Entry) :
    total (es.filter p) = (es.map fun e => if p e then e.amount.value.toRat else 0).sum := by
  induction es with
  | nil => rfl
  | cons e es ih => cases hp : p e <;> simp [hp, ih]

/-- Entries of a sort and one that is not of it come to no more than all entries. -/
theorem total_filter_add_le {p : Entry → Bool} {e : Entry} {es : List Entry} (he : e ∈ es)
    (hp : p e = false) : total (es.filter p) + e.amount.value.toRat ≤ total es := by
  induction es with
  | nil => cases he
  | cons x xs ih =>
    rw [total_cons]
    rcases List.mem_cons.1 he with rfl | he
    · rw [List.filter_cons_of_neg (by simp [hp])]
      linarith [total_le_of_sublist (List.filter_sublist (p := p) (l := xs))]
    · have hrest := ih he
      cases hx : p x with
      | true => rw [List.filter_cons_of_pos hx, total_cons]; linarith
      | false => rw [List.filter_cons_of_neg (by simp [hx])]; linarith [x.amount.toRat_pos]

/-- Whether all amounts have at most `S` places and come to less than `2 ^ 96` units of the last
one, for some number `S` of places that a decimal can have. -/
def Exact (es : List Entry) : Prop :=
  ∃ S ≤ Decimal.maxScale, (∀ e ∈ es, e.amount.value.scale ≤ S) ∧ total es * 10 ^ S < 2 ^ 96

/-- Entries among exact ones that do not come to more are exact. -/
theorem Exact.of_mem {es es' : List Entry} (h : Exact es') (hmem : ∀ e ∈ es, e ∈ es')
    (ht : total es ≤ total es') : Exact es := by
  obtain ⟨S, hS, hscale, hlt⟩ := h
  refine ⟨S, hS, fun e he => hscale e (hmem e he), lt_of_le_of_lt ?_ hlt⟩
  exact mul_le_mul_of_nonneg_right ht (by positivity)

theorem Exact.sublist {es es' : List Entry} (h : Exact es') (hs : es.Sublist es') : Exact es :=
  h.of_mem (fun _ he => hs.subset he) (total_le_of_sublist hs)

/-- Exactness only depends on what entries are made with. -/
theorem Exact.of_origins {es es' : List Entry} (h : Exact es')
    (ho : es.map Entry.origin = es'.map Entry.origin) : Exact es := by
  have ha : es.map Entry.amount = es'.map Entry.amount := by
    have := congrArg (List.map Origin.amount) ho
    simpa only [List.map_map, Function.comp_def, Entry.origin] using this
  obtain ⟨S, hS, hscale, hlt⟩ := h
  refine ⟨S, hS, fun e he => ?_, ?_⟩
  · obtain ⟨e', he', h⟩ := List.mem_map.1 (ha ▸ List.mem_map_of_mem (f := Entry.amount) he)
    exact h ▸ hscale e' he'
  · have ht : total es = total es' := by
      simp only [total, ← Function.comp_def (fun a : Amount => a.value.toRat) Entry.amount,
        ← List.map_map, ha]
    rwa [ht]

theorem total_of_values {es : List Entry} {ds : List Decimal}
    (h : es.map (fun e => e.amount.value) = ds) : total es = (ds.map Decimal.toRat).sum := by
  rw [← h, List.map_map, total, Function.comp_def]

/-- Entries of whole amounts come to their sum. -/
theorem total_of_words {es : List Entry} {l : List UInt64}
    (h : es.map (fun e => e.amount.value) = l.map .ofWord) :
    total es = ((l.map UInt64.toNat).sum : ℕ) := by
  have hwords : (l.map Decimal.ofWord).map Decimal.toRat = (l.map UInt64.toNat).map Nat.cast := by
    simp [Decimal.toRat]
  rw [total_of_values h, hwords]
  exact (map_list_sum (Nat.castAddMonoidHom ℚ) _).symm

/-- Entries of whole amounts are exact if their sum fits the magnitude of a decimal. -/
theorem Exact.of_words {es : List Entry} {l : List UInt64}
    (h : es.map (fun e => e.amount.value) = l.map .ofWord)
    (hlt : (l.map UInt64.toNat).sum < 2 ^ 96) : Exact es := by
  refine ⟨0, Nat.zero_le _, fun e he => ?_, ?_⟩
  · have hmem : e.amount.value ∈ l.map Decimal.ofWord := h ▸ List.mem_map.2 ⟨e, he, rfl⟩
    obtain ⟨n, -, hn⟩ := List.mem_map.1 hmem
    rw [← hn, Decimal.scale_ofWord]
  · rw [total_of_words h, pow_zero, mul_one]
    exact_mod_cast hlt

/-- The most places that an amount of some entries has. -/
def mostPlaces (es : List Entry) : Nat := es.foldr (fun e n => max e.amount.value.scale n) 0

theorem mostPlaces_le {es : List Entry} {S : Nat} (h : ∀ e ∈ es, e.amount.value.scale ≤ S) :
    mostPlaces es ≤ S := by
  induction es with
  | nil => exact Nat.zero_le S
  | cons e es ih =>
    exact max_le (h e List.mem_cons_self) (ih fun e' he' => h e' (List.mem_cons_of_mem _ he'))

/-- Adding up amounts is exact while the sum so far and all that are to come stay below `2 ^ 96`
units. The sum has as many places as what has most of them. -/
theorem Decimal.foldlM_add?_exact {S : Nat} (hS : S ≤ maxScale) {es : List Entry} {d : Decimal}
    (hd : d.IsPositive) (hds : d.scale ≤ S) (hes : ∀ e ∈ es, e.amount.value.scale ≤ S)
    (h : (d.toRat + total es) * 10 ^ S < 2 ^ 96) :
    ∃ d', (es.map fun e => e.amount.value).foldlM add? d = some d' ∧
      d'.scale = max d.scale (mostPlaces es) ∧ d'.toRat = d.toRat + total es := by
  induction es generalizing d with
  | nil => exact ⟨d, rfl, (Nat.max_zero _).symm, (add_zero _).symm⟩
  | cons e es ih =>
    rw [total_cons, ← add_assoc] at h
    have hdpos := isPositive_iff.1 hd
    have hpos := e.amount.toRat_pos
    have hfirst : |d.toRat + e.amount.value.toRat| * 10 ^ S < 2 ^ 96 := by
      rw [abs_of_nonneg (by linarith)]
      refine lt_of_le_of_lt (mul_le_mul_of_nonneg_right ?_ (by positivity)) h
      linarith [total_nonneg es]
    have he := hes e List.mem_cons_self
    obtain ⟨d₁, hadd, hs₁, hv₁⟩ := add?_of_ne_zero hS hds he hd.magnitude_ne_zero
      e.amount.positive.magnitude_ne_zero hfirst
    have hd₁ : d₁.IsPositive := isPositive_iff.2 (by rw [hv₁]; linarith)
    obtain ⟨d₂, hrest, hs₂, hv₂⟩ := ih hd₁ (hs₁.trans_le (max_le hds he))
      (fun e' he' => hes e' (List.mem_cons_of_mem _ he')) (by rwa [hv₁])
    refine ⟨d₂, ?_, ?_, ?_⟩
    · rw [List.map_cons, List.foldlM_cons, hadd]
      exact hrest
    · rw [hs₂, hs₁, max_assoc]
      rfl
    · rw [hv₂, hv₁, total_cons, add_assoc]

theorem Decimal.sum?_exact {S : Nat} (hS : S ≤ maxScale) {es : List Entry}
    (hes : ∀ e ∈ es, e.amount.value.scale ≤ S) (h : total es * 10 ^ S < 2 ^ 96) :
    ∃ d, sum? (es.map fun e => e.amount.value) = some d ∧ d.scale = mostPlaces es ∧
      d.toRat = total es := by
  cases es with
  | nil => exact ⟨zero, rfl, rfl, toRat_zero⟩
  | cons e es =>
    -- The first amount is added to zero, which leaves it as it is.
    obtain ⟨d, hd, hs, hv⟩ := foldlM_add?_exact hS e.amount.positive (hes e List.mem_cons_self)
      (fun e' he' => hes e' (List.mem_cons_of_mem _ he')) h
    exact ⟨d, hd, hs, hv⟩

/-- Whether some entries and one more amount are exact together. -/
def ExactWith (es : List Entry) (a : Amount) : Prop :=
  ∃ S ≤ Decimal.maxScale, (∀ e ∈ es, e.amount.value.scale ≤ S) ∧ a.value.scale ≤ S ∧
    (total es + a.value.toRat) * 10 ^ S < 2 ^ 96

theorem exactWith_amount {es : List Entry} {e : Entry} :
    ExactWith es e.amount ↔ Exact (es ++ [e]) := by
  simp only [ExactWith, Exact, List.forall_mem_append, List.forall_mem_singleton, total_append,
    total_cons, total_nil, add_zero, and_assoc]

/-- The sum of the amounts of exact entries, and the one with one more amount, exist and are the
exact ones. -/
theorem ExactWith.sum? {es : List Entry} {a : Amount} (h : ExactWith es a) :
    ∃ used sum, Decimal.sum? (es.map fun e => e.amount.value) = some used ∧
      used.add? a.value = some sum ∧ used.toRat = total es ∧
      sum.toRat = total es + a.value.toRat := by
  obtain ⟨S, hS, hscale, ha, hlt⟩ := h
  have hpos := a.toRat_pos
  have hused : total es * 10 ^ S < 2 ^ 96 :=
    lt_of_le_of_lt (mul_le_mul_of_nonneg_right (by linarith) (by positivity)) hlt
  obtain ⟨used, hsum, hs, hv⟩ := Decimal.sum?_exact hS hscale hused
  have hlast : |used.toRat + a.value.toRat| * 10 ^ S < 2 ^ 96 := by
    rwa [hv, abs_of_nonneg (by linarith [total_nonneg es])]
  obtain ⟨sum, hadd, -, hv'⟩ :=
    Decimal.add?_exact hS (hs.trans_le (mostPlaces_le hscale)) ha hlast
  exact ⟨used, sum, hsum, hadd, hv, hv'.trans (by rw [hv])⟩

/-- What an amount comes to in a wallet, as an entry of this kind. -/
def EntryKind.signed : EntryKind → Amount → ℚ
  | .charge, a => a.value.toRat
  | .withdrawal, a => -a.value.toRat
  | .payment, _ | .refund, _ => 0

/-- What an entry, once completed, moves into a wallet. -/
def Entry.moved (e : Entry) : ℚ := e.kind.signed e.amount

theorem Entry.abs_moved_le (e : Entry) : |e.moved| ≤ e.amount.value.toRat := by
  have h := e.amount.toRat_pos.le
  unfold moved EntryKind.signed
  cases e.kind with
  | charge => exact (abs_of_nonneg h).le
  | withdrawal => exact ((abs_neg _).trans (abs_of_nonneg h)).le
  | payment | refund => simpa using h

namespace Balance

/-- The balance after one more entry. -/
def after? (b : Balance) (e : Entry) : Option Balance :=
  match e.kind with
  | .charge => b.add? e.amount.value
  | .withdrawal => b.sub? e.amount.value
  | .payment | .refund => some b

/-- A balance and an entry that together stay below `2 ^ 96` units have an exact next balance. -/
theorem after?_exact {b : Balance} {e : Entry} {S : Nat} (hS : S ≤ Decimal.maxScale)
    (hb : b.value.scale ≤ S) (he : e.amount.value.scale ≤ S)
    (h : (|b.value.toRat| + e.amount.value.toRat) * 10 ^ S < 2 ^ 96) :
    ∃ b', b.after? e = some b' ∧ b'.value.scale ≤ S ∧
      b'.value.toRat = b.value.toRat + e.moved := by
  have hbound : ∀ x : ℚ, |x| ≤ |b.value.toRat| + e.amount.value.toRat → |x| * 10 ^ S < 2 ^ 96 :=
    fun x hx => lt_of_le_of_lt (mul_le_mul_of_nonneg_right hx (by positivity)) h
  have hpos := abs_of_pos e.amount.toRat_pos
  unfold after? Entry.moved EntryKind.signed
  cases e.kind with
  | charge =>
    have hx := abs_add_le b.value.toRat e.amount.value.toRat
    rw [hpos] at hx
    obtain ⟨d, hd, hds, hv⟩ := Decimal.add?_exact hS hb he (hbound _ hx)
    exact ⟨⟨d⟩, by rw [add?, hd]; rfl, hds, hv⟩
  | withdrawal =>
    have hx := abs_sub b.value.toRat e.amount.value.toRat
    rw [hpos] at hx
    obtain ⟨d, hd, hds, hv⟩ := Decimal.sub?_exact hS hb he (hbound _ hx)
    exact ⟨⟨d⟩, by rw [sub?, hd]; rfl, hds, by rw [hv, sub_eq_add_neg]⟩
  | payment | refund => exact ⟨b, rfl, hb, (add_zero _).symm⟩

/-- Folding entries into a balance is exact while the balance and all amounts to come stay below
`2 ^ 96` units. The bound is one on absolute values, so that it survives a negative balance on the
way. -/
theorem foldlM_after?_exact {S : Nat} (hS : S ≤ Decimal.maxScale) {es : List Entry} {b : Balance}
    (hb : b.value.scale ≤ S) (hes : ∀ e ∈ es, e.amount.value.scale ≤ S)
    (h : (|b.value.toRat| + total es) * 10 ^ S < 2 ^ 96) :
    ∃ b', es.foldlM after? b = some b' ∧
      b'.value.toRat = b.value.toRat + (es.map Entry.moved).sum := by
  induction es generalizing b with
  | nil => exact ⟨b, rfl, by simp⟩
  | cons e es ih =>
    rw [total_cons, ← add_assoc] at h
    have hfirst : (|b.value.toRat| + e.amount.value.toRat) * 10 ^ S < 2 ^ 96 :=
      lt_of_le_of_lt (mul_le_mul_of_nonneg_right (by linarith [total_nonneg es]) (by positivity)) h
    obtain ⟨b₁, hb₁, hs₁, hv₁⟩ :=
      after?_exact hS hb (hes e List.mem_cons_self) hfirst
    have habs : |b₁.value.toRat| ≤ |b.value.toRat| + e.amount.value.toRat := by
      rw [hv₁]
      exact (abs_add_le _ _).trans (by linarith [e.abs_moved_le])
    obtain ⟨b₂, hb₂, hv₂⟩ := ih hs₁ (fun e' he' => hes e' (List.mem_cons_of_mem _ he'))
      (lt_of_le_of_lt (mul_le_mul_of_nonneg_right (by linarith) (by positivity)) h)
    refine ⟨b₂, ?_, ?_⟩
    · rw [List.foldlM_cons, hb₁]; exact hb₂
    · rw [hv₂, hv₁, List.map_cons, List.sum_cons, add_assoc]

/-- The balance of exact entries exists and is their exact sum. -/
theorem ofEntries?_exact {es : List Entry} (h : Exact es) :
    ∃ b, ofEntries? es = some b ∧ b.value.toRat = (es.map Entry.moved).sum := by
  obtain ⟨S, hS, hscale, hlt⟩ := h
  obtain ⟨b, hb, hv⟩ := foldlM_after?_exact (b := zero) hS (Nat.zero_le _) hscale
    (by simpa [zero] using hlt)
  exact ⟨b, hb, by simpa [zero] using hv⟩

end Balance

end Paybook
