import Mathlib.Algebra.GroupWithZero.Nat
import Mathlib.Algebra.Order.BigOperators.Group.List
import Paybook.Decimal.Arithmetic

/-! # Sums that are in range

Rounding may take a sum away from the exact one, but never past a whole number. So a sum exists, and
takes no more whole units than its parts, while these together do not take more than a decimal can
have: `add?_of_extent`. -/

namespace Paybook.Decimal

open Text

/-- The whole units that it takes to hold the magnitude. -/
def extent (d : Decimal) : Nat := (d.magnitude + (tenTo d.scale - 1)) / tenTo d.scale

theorem extent_le_iff {d : Decimal} {n : Nat} :
    d.extent ≤ n ↔ d.magnitude ≤ n * tenTo d.scale := by
  have hpos := tenTo_pos d.scale
  rw [extent, Nat.div_le_iff_le_mul_add_pred hpos, Nat.mul_comm (tenTo d.scale)]
  omega

theorem magnitude_le_extent (d : Decimal) : d.magnitude ≤ d.extent * tenTo d.scale :=
  extent_le_iff.1 (Nat.le_refl _)

@[simp] theorem extent_zero : zero.extent = 0 := rfl

@[simp] theorem extent_neg (d : Decimal) : d.neg.extent = d.extent := by
  unfold neg extent
  split <;> rfl

theorem natAbs_mantissaAt_le {d : Decimal} {s : Nat} (h : d.scale ≤ s) :
    (d.mantissaAt s).natAbs ≤ d.extent * tenTo s := by
  obtain ⟨k, rfl⟩ := Nat.exists_eq_add_of_le h
  rw [mantissaAt, Int.natAbs_mul, natAbs_mantissa, Int.natAbs_natCast, Nat.add_sub_cancel_left,
    tenTo_add, ← Nat.mul_assoc]
  exact Nat.mul_le_mul_right _ d.magnitude_le_extent

/-- Rounding does not go past a whole number. -/
theorem natAbs_roundHalfEven_le {n : Int} {d k : Nat} (hd : 0 < d) (h : n.natAbs ≤ k * d) :
    (roundHalfEven n d).natAbs ≤ k := by
  have hd' : (0 : Int) < d := by omega
  have hupper : n ≤ k * d := by
    have : ((k * d : Nat) : Int) = k * d := Int.natCast_mul k d
    omega
  have hlower : -(k : Int) * d ≤ n := by
    have : ((k * d : Nat) : Int) = k * d := Int.natCast_mul k d
    rw [Int.neg_mul]
    omega
  have hge : -(k : Int) ≤ n / d := Int.le_ediv_of_mul_le hd' hlower
  have hle : n / d ≤ k := Int.ediv_le_of_le_mul hd' hupper
  -- It is only rounded up when something is left, and then the quotient is below `k`.
  have hlt : n % d ≠ 0 → n / d < k := by
    intro hleft
    have hpos := Int.emod_nonneg n (by omega : (d : Int) ≠ 0)
    have hquot := Int.mul_ediv_add_emod n d
    refine Int.lt_of_mul_lt_mul_left (a := d) ?_ (by omega)
    rw [Int.mul_comm (d : Int) k]
    omega
  unfold roundHalfEven
  dsimp only
  split
  · omega
  · split
    · have := hlt (by omega)
      omega
    · split
      · omega
      · have := hlt (by omega)
        omega

/-- A value of at most `k` whole units fits, and is not rounded to more of them. -/
theorem fit?_of_le {m : Int} {s t k : Nat} (hm : m.natAbs ≤ k * tenTo s) (hk : k ≤ maxMagnitude)
    (ht : t ≤ s) : ∃ d, fit? m s t = some d ∧ d.extent ≤ k := by
  -- Whatever of the two is rounded to, it takes at most `k` whole units.
  have hround : ∀ t ≤ s, (roundHalfEven m (tenTo (s - t))).natAbs ≤ k * tenTo t := by
    intro t ht
    refine natAbs_roundHalfEven_le (tenTo_pos _) ?_
    rwa [Nat.mul_assoc, ← tenTo_add, Nat.add_sub_cancel' ht]
  have hextent : ∀ t ≤ s, ∀ d, ofParts? (roundHalfEven m (tenTo (s - t))) t = some d →
      d.extent ≤ k := by
    intro t ht d hd
    rw [extent_le_iff, ← natAbs_mantissa, mantissa_of_ofParts? hd, scale_of_ofParts? hd]
    exact hround t ht
  induction t with
  | zero =>
    have hsome : (ofParts? (roundHalfEven m (tenTo s)) 0).isSome := by
      refine isSome_ofParts?.2 ⟨?_, Nat.zero_le _⟩
      have := hround 0 ht
      rw [Nat.sub_zero, tenTo_zero, Nat.mul_one] at this
      exact this.trans hk
    obtain ⟨d, hd⟩ := Option.isSome_iff_exists.1 hsome
    exact ⟨d, hd, hextent 0 ht d hd⟩
  | succ t ih =>
    rw [fit?]
    split
    · next d hd => exact ⟨d, rfl, hextent (t + 1) ht d hd⟩
    · exact ih (Nat.le_of_succ_le ht)

/-- Two numbers that together take no more whole units than a decimal can have are in range of each
other, and so is their sum. -/
theorem add?_of_extent {a b : Decimal} (h : a.extent + b.extent ≤ maxMagnitude) :
    ∃ c, a.add? b = some c ∧ c.extent ≤ a.extent + b.extent := by
  unfold add?
  split
  · exact ⟨b, rfl, Nat.le_add_left _ _⟩
  · split
    · exact ⟨a, rfl, Nat.le_add_right _ _⟩
    · refine fit?_of_le ?_ h (le_refl _)
      rw [Nat.add_mul]
      have ha := natAbs_mantissaAt_le (d := a) (le_max_left a.scale b.scale)
      have hb := natAbs_mantissaAt_le (d := b) (le_max_right a.scale b.scale)
      exact (Int.natAbs_add_le _ _).trans (Nat.add_le_add ha hb)

theorem sub?_of_extent {a b : Decimal} (h : a.extent + b.extent ≤ maxMagnitude) :
    ∃ c, a.sub? b = some c ∧ c.extent ≤ a.extent + b.extent := by
  have hneg := extent_neg b
  rw [← hneg] at h ⊢
  exact add?_of_extent h

/-- Steps that may fail succeed one after the other while what they start from and all that is to
come stay within a bound. -/
theorem exists_foldlM {α β : Type} {step : β → α → Option β} {size : β → Nat} {cost : α → Nat}
    {bound : Nat} (hstep : ∀ b a, size b + cost a ≤ bound →
      ∃ b', step b a = some b' ∧ size b' ≤ size b + cost a) {as : List α} {b : β}
    (h : size b + (as.map cost).sum ≤ bound) :
    ∃ b', as.foldlM step b = some b' ∧ size b' ≤ size b + (as.map cost).sum := by
  induction as generalizing b with
  | nil => exact ⟨b, rfl, le_refl _⟩
  | cons a as ih =>
    rw [List.map_cons, List.sum_cons, ← Nat.add_assoc] at h
    obtain ⟨b₁, hfirst, hb₁⟩ := hstep b a (by omega)
    obtain ⟨b₂, hrest, hb₂⟩ := ih (b := b₁) (by omega)
    refine ⟨b₂, ?_, ?_⟩
    · rw [List.foldlM_cons, hfirst]
      exact hrest
    · rw [List.map_cons, List.sum_cons]
      omega

theorem sum?_of_extent {ds : List Decimal} (h : (ds.map extent).sum ≤ maxMagnitude) :
    ∃ c, sum? ds = some c ∧ c.extent ≤ (ds.map extent).sum := by
  have hzero : zero.extent + (ds.map extent).sum = (ds.map extent).sum := Nat.zero_add _
  rw [← hzero] at h ⊢
  exact exists_foldlM (fun _ _ => add?_of_extent) h

end Paybook.Decimal
