import Paybook.Decimal.Printer

/-! # Directories of users and orders

Users and orders are registered from outside. Registering one again replaces it. -/

namespace Paybook

structure User where
  id : Nat
  name : String
deriving DecidableEq, Repr

/-- An order as its shop has it. Neither its total nor its status is checked here. -/
structure Order where
  id : Nat
  user : Nat
  total : Decimal
  status : String
deriving DecidableEq, Repr

/-- Things under their identifiers, which ascend. -/
structure Directory (α : Type) where
  items : List (Nat × α) := []
deriving Repr

namespace Directory

variable {α : Type}

/-- Puts a thing into its place in an ascending list, instead of the one that was there. -/
def put (id : Nat) (a : α) : List (Nat × α) → List (Nat × α)
  | [] => [(id, a)]
  | (i, b) :: rest =>
    if id < i then (id, a) :: (i, b) :: rest
    else if id = i then (id, a) :: rest
    else (i, b) :: put id a rest

/-- Registers a thing under an identifier. -/
def register (d : Directory α) (id : Nat) (a : α) : Directory α := ⟨put id a d.items⟩

/-- The thing under an identifier. -/
def find? (d : Directory α) (id : Nat) : Option α := d.items.lookup id

def contains (d : Directory α) (id : Nat) : Bool := (d.find? id).isSome

/-- The identifiers in use, ascending. -/
def ids (d : Directory α) : List Nat := d.items.map Prod.fst

theorem lookup_put (id i : Nat) (a : α) (items : List (Nat × α)) :
    (put id a items).lookup i = if i = id then some a else items.lookup i := by
  induction items with
  | nil =>
    by_cases h : i = id
    · simp [put, h]
    · simp [put, List.lookup_cons, beq_false_of_ne h, h]
  | cons item rest ih =>
    obtain ⟨j, b⟩ := item
    simp only [put]
    split
    · by_cases h : i = id
      · simp [h]
      · simp [List.lookup_cons, beq_false_of_ne h, h]
    · split
      · next h' =>
        subst h'
        by_cases h : i = id
        · simp [h]
        · simp [List.lookup_cons, beq_false_of_ne h, h]
      · next hne =>
        by_cases h : i = j
        · subst h; simp [Ne.symm hne]
        · simp [List.lookup_cons, beq_false_of_ne h, ih]

theorem find?_register (d : Directory α) (id i : Nat) (a : α) :
    (d.register id a).find? i = if i = id then some a else d.find? i :=
  lookup_put id i a d.items

theorem mem_put {id i : Nat} {a : α} {items : List (Nat × α)} :
    i ∈ (put id a items).map Prod.fst ↔ i = id ∨ i ∈ items.map Prod.fst := by
  induction items with
  | nil => simp [put]
  | cons item rest ih =>
    obtain ⟨j, b⟩ := item
    simp only [put]
    split
    · simp
    · split
      · next h => subst h; simp
      · simp only [List.map_cons, List.mem_cons, ih]
        constructor <;> (rintro (h | h | h) <;> simp [h])

/-- Registering keeps the identifiers ascending. -/
theorem pairwise_put {id : Nat} {a : α} {items : List (Nat × α)}
    (h : (items.map Prod.fst).Pairwise (· < ·)) :
    ((put id a items).map Prod.fst).Pairwise (· < ·) := by
  induction items with
  | nil => simp [put]
  | cons item rest ih =>
    obtain ⟨j, b⟩ := item
    rw [List.map_cons] at h
    have hj := List.pairwise_cons.1 h
    simp only [put]
    split
    · next hlt =>
      refine List.pairwise_cons.2 ⟨?_, h⟩
      intro i hi
      rw [List.map_cons] at hi
      rcases List.mem_cons.1 hi with rfl | hi
      · exact hlt
      · exact Nat.lt_trans hlt (hj.1 i hi)
    · split
      · next heq => subst heq; exact h
      · next hnlt hne =>
        refine List.pairwise_cons.2 ⟨?_, ih hj.2⟩
        intro i hi
        rcases mem_put.1 hi with rfl | hi
        · show j < i; omega
        · exact hj.1 i hi

end Directory

end Paybook
