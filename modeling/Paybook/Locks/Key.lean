/-! # Lock keys

What must be checked and written by one call at a time has a key: an order or a user. Keys are
taken in one order, all orders before all users, so that calls cannot wait for each other in a
circle. -/

namespace Paybook

/-- The key of an order or of a user. -/
inductive LockKey where
  | order (id : Nat)
  | user (id : Nat)
deriving DecidableEq, Repr

namespace LockKey

/-- The place of a key in the order of keys: its sort and its number. -/
def rank : LockKey → Nat × Nat
  | order id => (0, id)
  | user id => (1, id)

/-- Whether a key comes before another one. -/
def precedes (a b : LockKey) : Bool :=
  a.rank.1 < b.rank.1 || (a.rank.1 == b.rank.1 && a.rank.2 < b.rank.2)

theorem precedes_iff {a b : LockKey} :
    a.precedes b = true ↔ a.rank.1 < b.rank.1 ∨ (a.rank.1 = b.rank.1 ∧ a.rank.2 < b.rank.2) := by
  simp [precedes]

theorem rank_injective {a b : LockKey} (h : a.rank = b.rank) : a = b := by
  cases a <;> cases b <;> simp_all [rank]

theorem precedes_irrefl (a : LockKey) : a.precedes a = false := by
  simp [precedes]

theorem precedes_trans {a b c : LockKey} (h : a.precedes b = true) (h' : b.precedes c = true) :
    a.precedes c = true := by
  rw [precedes_iff] at *; omega

theorem precedes_or_eq_or_precedes (a b : LockKey) :
    a.precedes b = true ∨ a = b ∨ b.precedes a = true := by
  by_cases h : a.rank = b.rank
  · exact .inr (.inl (rank_injective h))
  · simp only [precedes_iff]
    have : ¬(a.rank.1 = b.rank.1 ∧ a.rank.2 = b.rank.2) := fun h' => h (Prod.ext h'.1 h'.2)
    omega

/-- The keys in their order, duplicates kept. -/
def sorted (ks : List LockKey) : List LockKey := ks.mergeSort fun a b => !b.precedes a

/-- Puts a key into its place among ordered keys, unless it is there already. -/
def insert (k : LockKey) : List LockKey → List LockKey
  | [] => [k]
  | x :: xs =>
    if k = x then x :: xs
    else if k.precedes x then k :: x :: xs
    else x :: insert k xs

/-- The distinct keys in their order: the order in which a caller takes them. -/
def schedule (ks : List LockKey) : List LockKey := ks.foldr insert []

theorem mem_insert {k x : LockKey} {xs : List LockKey} : x ∈ insert k xs ↔ x = k ∨ x ∈ xs := by
  induction xs with
  | nil => simp [insert]
  | cons y ys ih =>
    simp only [insert]
    split
    · next h => subst h; simp
    · split
      · simp
      · simp only [List.mem_cons, ih]
        constructor <;> (rintro (h | h | h) <;> simp [h])

theorem mem_schedule {x : LockKey} {ks : List LockKey} : x ∈ schedule ks ↔ x ∈ ks := by
  induction ks with
  | nil => simp [schedule]
  | cons k ks ih =>
    show x ∈ insert k (schedule ks) ↔ _
    rw [mem_insert, ih, List.mem_cons]

theorem pairwise_insert {k : LockKey} {xs : List LockKey}
    (h : xs.Pairwise fun a b => a.precedes b = true) :
    (insert k xs).Pairwise fun a b => a.precedes b = true := by
  induction xs with
  | nil => simp [insert]
  | cons x xs ih =>
    have hx := List.pairwise_cons.1 h
    simp only [insert]
    split
    · exact h
    · next hne =>
      split
      · next hlt =>
        refine List.pairwise_cons.2 ⟨?_, h⟩
        intro y hy
        rcases List.mem_cons.1 hy with rfl | hy
        · exact hlt
        · exact precedes_trans hlt (hx.1 y hy)
      · next hlt =>
        refine List.pairwise_cons.2 ⟨?_, ih hx.2⟩
        intro y hy
        rcases mem_insert.1 hy with rfl | hy
        · rcases precedes_or_eq_or_precedes x y with h | h | h
          · exact h
          · exact absurd h.symm hne
          · exact absurd h hlt
        · exact hx.1 y hy

/-- The keys of a schedule strictly ascend. -/
theorem pairwise_schedule (ks : List LockKey) :
    (schedule ks).Pairwise fun a b => a.precedes b = true := by
  induction ks with
  | nil => exact List.Pairwise.nil
  | cons k ks ih => exact pairwise_insert ih

end LockKey

end Paybook
