import Paybook.Proofs.Program.Leads
import Paybook.Proofs.Program.Yields

/-! # Demands

A call makes demands, one after the other, and each has its kind of failure. A program that runs
alone `Heeds` a list of demands when it fails with the kind of the first one that is not met, and a
condition holds of its end when all are. There is one rule for a check in front of a program, which
puts its demand in front of the others. -/

namespace Paybook

/-- Something that a call demands, with the kind of its failure when that is not so. -/
structure Demand where
  met : Prop
  kind : FailureKind

/-- Whether a call fails with a failure of a kind. -/
def Outcome.FailsAs {α : Type} (o : Outcome α) (kind : FailureKind) : Prop :=
  ∃ f, o = .failed f ∧ f.kind = kind

theorem Outcome.FailsAs.not_returned {α : Type} {o : Outcome α} {kind : FailureKind}
    (h : o.FailsAs kind) (a : α) : o ≠ .returned a := by
  obtain ⟨f, rfl, -⟩ := h
  rintro ⟨⟩

/-- If not all demands are met, there is a first one that is not. -/
theorem Demand.exists_first {ds : List Demand} (h : ¬∀ d ∈ ds, d.met) :
    ∃ before d after, ds = before ++ d :: after ∧ (∀ x ∈ before, x.met) ∧ ¬d.met := by
  induction ds with
  | nil => exact absurd (fun _ hd => absurd hd List.not_mem_nil) h
  | cons d ds ih =>
    by_cases hd : d.met
    · rw [List.forall_mem_cons, not_and] at h
      obtain ⟨before, x, after, rfl, hbefore, hx⟩ := ih (h hd)
      exact ⟨d :: before, x, after, rfl, List.forall_mem_cons.2 ⟨hd, hbefore⟩, hx⟩
    · exact ⟨[], d, ds, rfl, fun _ hx => absurd hx List.not_mem_nil, hd⟩

/-- Whether a call returns exactly if its demands are met, and fails with the kind of the first one
that is not met otherwise. -/
def Outcome.Obeys {α : Type} (o : Outcome α) (ds : List Demand) : Prop :=
  ((∃ a, o = .returned a) ↔ ∀ d ∈ ds, d.met) ∧
    ∀ before d after, ds = before ++ d :: after → (∀ x ∈ before, x.met) → ¬d.met →
      o.FailsAs d.kind

namespace Program

variable {α β : Type} {p q : Program α} {w : World} {Q : Outcome α → World → Prop}
variable {d : Demand} {ds ds' : List Demand}

/-- Whether a program that runs alone fails with the kind of the first of some demands that is not
met, and a condition holds of its end when all of them are. -/
def Heeds (p : Program α) (w : World) (Q : Outcome α → World → Prop) : List Demand → Prop
  | [] => p.Yields w Q
  | d :: ds => (d.met → p.Heeds w Q ds) ∧ (¬d.met → (p.run w).1.FailsAs d.kind)

theorem Heeds.yields (h : p.Heeds w Q ds) (hmet : ∀ d ∈ ds, d.met) : p.Yields w Q := by
  induction ds with
  | nil => exact h
  | cons d ds ih =>
    obtain ⟨hd, hds⟩ := List.forall_mem_cons.1 hmet
    exact ih (h.1 hd) hds

theorem Heeds.failsAs (h : p.Heeds w Q (ds ++ d :: ds')) (hbefore : ∀ x ∈ ds, x.met)
    (hd : ¬d.met) : (p.run w).1.FailsAs d.kind := by
  induction ds with
  | nil => exact h.2 hd
  | cons x ds ih =>
    obtain ⟨hx, hds⟩ := List.forall_mem_cons.1 hbefore
    exact ih (h.1 hx) hds

/-- A program that returns when its demands are met returns exactly then. -/
theorem Heeds.returns_iff (h : p.Heeds w Q ds) (hQ : ∀ o w', Q o w' → ∃ a, o = .returned a) :
    (∃ a, (p.run w).1 = .returned a) ↔ ∀ d ∈ ds, d.met := by
  refine ⟨fun hreturns => ?_, fun hmet => hQ _ _ (h.yields hmet)⟩
  by_contra hnot
  obtain ⟨before, d, after, rfl, hbefore, hd⟩ := Demand.exists_first hnot
  obtain ⟨a, ha⟩ := hreturns
  exact (h.failsAs hbefore hd).not_returned a ha

theorem Heeds.obeys (h : p.Heeds w Q ds) (hQ : ∀ o w', Q o w' → ∃ a, o = .returned a) :
    (p.run w).1.Obeys ds := by
  refine ⟨h.returns_iff hQ, fun before d after hds hbefore hd => ?_⟩
  rw [hds] at h
  exact h.failsAs hbefore hd

/-- Programs that run alike heed alike. -/
theorem Heeds.of_run_eq (h : q.Heeds w Q ds) (hrun : p.run w = q.run w) : p.Heeds w Q ds := by
  induction ds with
  | nil =>
    rw [Heeds, Yields, hrun]
    exact h
  | cons d ds ih =>
    refine ⟨fun hd => ih (h.1 hd), fun hd => ?_⟩
    rw [hrun]
    exact h.2 hd

/-- A demand that is met may be put in front. -/
theorem Heeds.of_met {P : Prop} {kind : FailureKind} (hP : P) (h : p.Heeds w Q ds) :
    p.Heeds w Q (⟨P, kind⟩ :: ds) :=
  ⟨fun _ => h, fun hnot => absurd hP hnot⟩

/-- A demand may be put in other words. -/
theorem Heeds.of_iff {P P' : Prop} {kind : FailureKind} (h : p.Heeds w Q (⟨P, kind⟩ :: ds))
    (hP : P ↔ P') : p.Heeds w Q (⟨P', kind⟩ :: ds) :=
  ⟨fun hmet => h.1 (hP.2 hmet), fun hnot => h.2 (mt hP.1 hnot)⟩

/-- All demands may be put in other words. -/
theorem Heeds.congr (h : p.Heeds w Q ds)
    (hds : List.Forall₂ (fun d d' => (d.met ↔ d'.met) ∧ d.kind = d'.kind) ds ds') :
    p.Heeds w Q ds' := by
  induction hds with
  | nil => exact h
  | @cons d d' ds ds' hd _ ih =>
    obtain ⟨hmet, hkind⟩ := hd
    exact ⟨fun hd' => ih (h.1 (hmet.2 hd')), fun hd' => hkind ▸ h.2 (mt hmet.1 hd')⟩

/-- Two demands of one kind may be put as one. -/
theorem Heeds.and {P P' : Prop} {kind : FailureKind}
    (h : p.Heeds w Q (⟨P, kind⟩ :: ⟨P', kind⟩ :: ds)) :
    p.Heeds w Q (⟨P ∧ P', kind⟩ :: ds) := by
  refine ⟨fun hmet => (h.1 hmet.1).1 hmet.2, fun hnot => ?_⟩
  by_cases hP : P
  · exact (h.1 hP).2 fun hP' => hnot ⟨hP, hP'⟩
  · exact h.2 hP

/-- If the demands that are not met are all of one kind, the program fails with it. -/
theorem Heeds.failsAs_of_kind (h : p.Heeds w Q ds) (hnot : ¬∀ d ∈ ds, d.met) {kind : FailureKind}
    (hkind : ∀ d ∈ ds, ¬d.met → d.kind = kind) : (p.run w).1.FailsAs kind := by
  obtain ⟨before, d, after, rfl, hbefore, hd⟩ := Demand.exists_first hnot
  rw [← hkind d (List.mem_append_right _ List.mem_cons_self) hd]
  exact h.failsAs hbefore hd

/-! ## Checks -/

section Checks

variable {p : Program α} {f : α → Program β} {Q : Outcome β → World → Prop}

/-- What comes behind a part that returns without having changed anything. -/
theorem heeds_bind_of_run {a : α} (hrun : p.run w = (.returned a, w)) (h : (f a).Heeds w Q ds) :
    (p >>= f).Heeds w Q ds :=
  h.of_run_eq (run_bind_of_run hrun)

/-- Parts that run alike may stand for each other. -/
theorem Heeds.bind_of_run_eq {q : Program α} (hrun : p.run w = q.run w)
    (h : (q >>= f).Heeds w Q ds) : (p >>= f).Heeds w Q ds := by
  refine h.of_run_eq ?_
  change (p.bind f).run w = (q.bind f).run w
  rw [run_bind, run_bind, hrun]

/-- A check puts its demand in front of those of what comes behind it. -/
theorem heeds_bind {P : Prop} {kind : FailureKind}
    (hmet : P → ∃ a, p.run w = (.returned a, w) ∧ (f a).Heeds w Q ds)
    (hnot : ¬P → (p.run w).1.FailsAs kind) : (p >>= f).Heeds w Q (⟨P, kind⟩ :: ds) := by
  refine ⟨fun hP => ?_, fun hP => ?_⟩
  · obtain ⟨a, hrun, h⟩ := hmet hP
    exact heeds_bind_of_run hrun h
  · obtain ⟨e, he, hkind⟩ := hnot hP
    refine ⟨e, ?_, hkind⟩
    change ((p.bind f).run w).1 = _
    rw [run_bind]
    rcases hrun : p.run w with ⟨o, w'⟩
    rw [hrun] at he
    cases he
    rfl

theorem heeds_require {c : Bool} {e : Failure} {f : Unit → Program β} {P : Prop}
    (hc : c = true ↔ P) (h : P → (f ()).Heeds w Q ds) :
    (require c e >>= f).Heeds w Q (⟨P, e.kind⟩ :: ds) := by
  refine heeds_bind (fun hP => ⟨(), ?_, h hP⟩) fun hP => ?_
  · rw [hc.2 hP]
    rfl
  · rw [Bool.eq_false_iff.2 (mt hc.1 hP)]
    exact ⟨e, rfl, rfl⟩

theorem heeds_ofAttempt {x : Attempt α} {P : Prop} {kind : FailureKind}
    (hmet : P → ∃ a, x = .ok a ∧ (f a).Heeds w Q ds)
    (hnot : ¬P → ∃ e : Failure, x = .error e ∧ e.kind = kind) :
    (ofAttempt x >>= f).Heeds w Q (⟨P, kind⟩ :: ds) := by
  refine heeds_bind (fun hP => ?_) fun hP => ?_
  · obtain ⟨a, rfl, h⟩ := hmet hP
    exact ⟨a, rfl, h⟩
  · obtain ⟨e, rfl, hkind⟩ := hnot hP
    exact ⟨e, rfl, hkind⟩

theorem heeds_requireId {id : Nat} {what : String} {f : Unit → Program β}
    (h : id ≠ 0 → (f ()).Heeds w Q ds) :
    (requireId id what >>= f).Heeds w Q (⟨id ≠ 0, .invalidArgument⟩ :: ds) :=
  heeds_require decide_eq_true_iff h

theorem heeds_acquire {keys : List LockKey} {f : Unit → Program β} (h : (f ()).Heeds w Q ds) :
    (acquire keys >>= f).Heeds w Q ds :=
  h.of_run_eq (leads_acquire keys f).run_eq

theorem heeds_load (hw : w.Calm) {id : Nat} {f : Entry → Program β}
    (h : ∀ e, w.store.get? id = some e → (f e).Heeds w Q ds) :
    (load id >>= f).Heeds w Q (⟨∃ e, w.store.get? id = some e, .notFound⟩ :: ds) := by
  refine heeds_bind ?_ fun hnone => ?_
  · rintro ⟨e, he⟩
    refine ⟨e, ?_, h e he⟩
    rw [run_load hw, he]
  · rw [run_load hw, Option.eq_none_iff_forall_ne_some.2 fun e he => hnone ⟨e, he⟩]
    exact ⟨_, rfl, rfl⟩

end Checks

end Program

end Paybook
