import Paybook.Proofs.Service.Frame
import Paybook.Proofs.Service.Upholding

/-! # Well-kept ledgers

Whatever happens to a ledger, its entries are numbered without gaps and well formed, move money by a
method of their kind, and are pending between calls only where the money waits for word from
outside: `World.well_kept`. -/

namespace Paybook

open Program Time

/-! ## Well-formed entries in calm worlds -/

section WellFormed

variable {α : Type} {w : World} {t : Terms}

/-- An update succeeds or changes nothing. -/
theorem World.Calm.answer_update_or (hw : w.Calm) (e : Entry) :
    (∃ f, w.answer (.update e) = (.error f, w)) ∨
      w.answer (.update e) =
        (.ok (Store.bumped e), w.withStore (w.store.replace (Store.bumped e))) := by
  obtain ⟨⟨store, troubles⟩, _⟩ := w
  cases hw
  simp only [World.answer, TroubledStore.update, TroubledStore.before_nil]
  cases hu : store.update e with
  | error f => exact .inl ⟨f, rfl⟩
  | ok r =>
    obtain ⟨e', s'⟩ := r
    obtain ⟨-, rfl, rfl⟩ := Store.update_eq_ok.1 hu
    exact .inr rfl

/-- A calm world tells of well-formed entries only, as long as no others are written into it. -/
theorem Request.Fits.answer {r : Request} (h : r.Fits) (hw : w.Calm) (hs : w.store.WellFormed) :
    r.Tells (w.answer r).1 ∧ (w.answer r).2.Calm ∧ (w.answer r).2.store.WellFormed := by
  cases r with
  | get id =>
    rw [hw.answer_get]
    refine ⟨fun e he => ?_, hw, hs⟩
    exact hs e (Store.get?_eq_some.1 (Except.ok.inj he)).1
  | query sel =>
    rw [hw.answer_query]
    refine ⟨?_, hw, hs⟩
    rintro _ ⟨⟩ e he
    exact hs e (Store.mem_query.1 he).1
  | insert d =>
    have hnew : (w.store.upcoming d w.now).WellFormed := .ofDraft h _ _
    rw [hw.answer_insert]
    refine ⟨fun e he => Except.ok.inj he ▸ hnew, w.calm_withStore _, fun e he => ?_⟩
    rcases List.mem_append.1 he with he | he
    · exact hs e he
    · exact List.mem_singleton.1 he ▸ hnew
  | update e =>
    have hnew : (Store.bumped e).WellFormed := Entry.WellFormed.bumped (e := e) h
    rcases hw.answer_update_or e with ⟨f, hanswer⟩ | hanswer
    · rw [hanswer]
      refine ⟨fun x hx => ?_, hw, hs⟩
      have hx : (.error f : Attempt Entry) = .ok x := hx
      cases hx
    · rw [hanswer]
      refine ⟨fun x hx => Except.ok.inj hx ▸ hnew, w.calm_withStore _, fun x hx => ?_⟩
      rcases Store.mem_replaced hx with ⟨hx, -⟩ | hx
      · exact hs x hx
      · exact hx ▸ hnew
  | findReference reference =>
    refine ⟨fun e he => ?_, hw, hs⟩
    exact hs e (List.mem_of_find?_eq_some he)
  | verdict desk => cases desk <;> exact ⟨trivial, hw, hs⟩
  | lock | user | order | contains | clock | token => exact ⟨trivial, hw, hs⟩

theorem Program.Upholds.run {p : Program α} {Q : α → Prop} (h : p.Upholds Q) (hw : w.Calm)
    (hs : w.store.WellFormed) : (p.run w).2.Calm ∧ (p.run w).2.store.WellFormed := by
  induction p generalizing w with
  | done o => exact ⟨hw, hs⟩
  | ask r next ih =>
    obtain ⟨htells, hcalm, hstore⟩ := h.1.answer hw hs
    exact ih _ (h.2 _ htells) hcalm hstore

theorem World.wellFormed_after {es : List Event} (hw : w.Calm) (hs : w.store.WellFormed) :
    (w.after t es).store.WellFormed := by
  induction es generalizing w with
  | nil => exact hs
  | cons e es ih =>
    cases e with
    | call c =>
      obtain ⟨hcalm, hstore⟩ := (c.upholds t).run hw hs
      exact ih hcalm hstore
    | user | order | time => exact ih hw hs

end WellFormed

/-! ## Methods, and what is awaited -/

namespace EntryKind

/-- The methods by which entries of a kind move money. -/
def methods : EntryKind → List Method
  | payment | refund => [.wallet, .card, .cashOnDelivery]
  | charge => [.wallet, .card, .bankTransfer, .adminCredit]
  | withdrawal => [.wallet, .bankTransfer, .adminCredit]

/-- The method by which money of a kind waits for word from outside, if there is one. -/
def awaited? : EntryKind → Option Method
  | charge | withdrawal => some .bankTransfer
  | payment => some .cashOnDelivery
  | refund => none

theorem wallet_mem_methods (k : EntryKind) : .wallet ∈ k.methods := by
  cases k <;> simp [methods]

end EntryKind

/-- Whether an entry moves money by a method of its kind, and is pending only where the money waits
for word from outside. -/
structure Entry.Usual (e : Entry) : Prop where
  method : e.method ∈ e.kind.methods
  pending : e.status = .pending → e.kind.awaited? = some e.method

/-- Whether all entries are usual. -/
def Store.Usual (s : Store) : Prop := ∀ e ∈ s.entries, e.Usual

theorem Store.Usual.empty : Store.empty.Usual := fun _ h => absurd h List.not_mem_nil

section Usual

variable {w w' : World} {t : Terms} {c : Call} {a : Action} {o : Outcome Entry} {d : Draft}
variable {s s' : Store} {e : Entry} {es : List Entry} {now : Instant} {st : Status}
variable {reference : Option String}

theorem Store.Usual.extends (h : s.Usual) (he : s.Extends es s') (hes : ∀ e ∈ es, e.Usual) :
    s'.Usual := by
  intro e hmem
  rw [he.entries] at hmem
  exact (List.mem_append.1 hmem).elim (h e) (hes e)

theorem Draft.Sound.mem_methods (h : d.Sound s) : d.method ∈ d.kind.methods := by
  obtain ⟨user, order, amount, kind, method, description⟩ := d
  cases kind with
  | charge | withdrawal => cases method <;> cases h <;> simp [EntryKind.methods]
  | payment => cases method <;> cases h.1 <;> simp [EntryKind.methods]
  | refund => cases method <;> cases h <;> simp [EntryKind.methods]

/-- A draft is left pending only when its money waits for word from outside. -/
theorem Draft.Sound.awaited? (h : d.Sound s) (hp : d.status = .pending) :
    d.kind.awaited? = some d.method := by
  obtain ⟨user, order, amount, kind, method, description⟩ := d
  cases kind with
  | charge | payment => cases method <;> first | rfl | cases hp
  | withdrawal => exact congrArg some (Eq.symm h)
  | refund => cases hp

theorem Call.Plans.mem_methods_of_instant {word : String} (h : Plans t w c (.instant d word)) :
    d.method ∈ d.kind.methods := by
  cases h <;> simp [EntryKind.methods]

theorem Entry.Made.usual (h : e.Made d now st reference) (hm : d.method ∈ d.kind.methods)
    (hp : st = .pending → d.kind.awaited? = some d.method) : e.Usual where
  method := by rw [h.method_eq, h.kind_eq]; exact hm
  pending hstatus := by rw [h.method_eq, h.kind_eq]; exact hp (h.status_eq.symm.trans hstatus)

/-- What a call comes to keeps the entries usual. -/
theorem Call.Plans.usual (h : Plans t w c a) (he : a.Effect w o w') (hs : a.Sound w)
    (hu : w.store.Usual) : w'.store.Usual := by
  cases he with
  | refused | stopped => exact hu
  | instant gains made =>
    refine hu.extends gains.store ?_
    simp only [List.mem_singleton, forall_eq]
    exact made.usual h.mem_methods_of_instant nofun
  | entrusted done =>
    cases done with
    | alone _ _ gains made =>
      refine hu.extends gains.store ?_
      simp only [List.mem_singleton, forall_eq]
      exact made.usual (Draft.Sound.mem_methods hs) (Draft.Sound.awaited? hs)
    | paired _ _ gains made legMade =>
      refine hu.extends gains.store ?_
      simp only [List.mem_cons, List.not_mem_nil, or_false, forall_eq_or_imp, forall_eq]
      exact ⟨made.usual (Draft.Sound.mem_methods hs) nofun,
        legMade.usual (EntryKind.wallet_mem_methods _) nofun⟩
  | declined _ gains made =>
    refine hu.extends gains.store ?_
    simp only [List.mem_singleton, forall_eq]
    exact made.usual (Draft.Sound.mem_methods hs) nofun
  | settled _ origin final _ store =>
    obtain ⟨hget, -, hfinal⟩ := hs
    rw [store]
    intro x hx
    rcases Store.mem_replaced hx with ⟨hx, -⟩ | rfl
    · exact hu x hx
    · refine ⟨?_, fun hp => absurd (final.symm.trans hp) hfinal⟩
      rw [Entry.method_eq_of_origin origin, Entry.kind_eq_of_origin origin]
      exact (hu _ (Store.get?_eq_some.1 hget).1).method

theorem World.usual_after (t : Terms) (w : World) (es : List Event) :
    ((w.withStore .empty).after t es).store.Usual := by
  have hkeep : Call.Keep t (fun _ => True) Store.Usual :=
    fun _ _ _ _ _ _ hpay _ hplan heffect hu => hplan.usual heffect (hplan.sound hpay) hu
  exact after_induction w .empty hkeep fun _ _ => trivial

end Usual

/-! ## Ledgers -/

/-- The identifiers of numbered entries are all those that were given. -/
theorem Store.Numbered.contains_iff {s : Store} (h : s.Numbered) {id : Nat} :
    s.contains id = true ↔ 1 ≤ id ∧ id ≤ s.lastId := by
  have hids : id ∈ s.entries.map Entry.id ↔ 1 ≤ id ∧ id ≤ s.lastId := by
    rw [h, List.mem_range'_1, Nat.add_comm 1, Nat.lt_succ_iff]
  rw [← hids, contains, Option.isSome_iff_exists, List.mem_map]
  exact exists_congr fun e => get?_eq_some

/-- Whatever happens to a ledger that was empty, its entries have the identifiers from 1 to the one
that was given last, each its own, and are found under these and no others. All of them are well
formed, move a positive amount by a method of their kind, and are pending only where the money waits
for word from outside. -/
theorem World.well_kept (t : Terms) (w : World) (es : List Event) :
    let s := ((w.withStore .empty).after t es).store
    s.entries.map Entry.id = List.range' 1 s.lastId ∧
    (∀ id, s.contains id = true ↔ 1 ≤ id ∧ id ≤ s.lastId) ∧
    (∀ id e, s.get? id = some e → e.id = id) ∧
    ∀ e ∈ s.entries, s.get? e.id = some e ∧ e.amount.value.IsPositive ∧ e.WellFormed ∧ e.Usual := by
  intro s
  have hcalm := w.calm_withStore .empty
  have hnumbered : s.Numbered := (written_after hcalm es).2.numbered .empty
  have hwell : s.WellFormed := wellFormed_after hcalm .empty
  have husual : s.Usual := usual_after t w es
  refine ⟨hnumbered, fun id => hnumbered.contains_iff, fun id e he => ?_, fun e he => ?_⟩
  · exact (Store.get?_eq_some.1 he).2
  · exact ⟨Store.get?_eq_some.2 ⟨he, rfl⟩, e.amount.positive, hwell e he, husual e he⟩

end Paybook
