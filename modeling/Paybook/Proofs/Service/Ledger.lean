import Mathlib.Logic.Relation
import Paybook.Proofs.Service.Calm
import Paybook.Proofs.Service.Payment
import Paybook.Proofs.Store.OrderSafety
import Paybook.Proofs.Store.Worth

/-! # The ledger

The ledger is a book whose store has no troubles, with calls made one after the other and users,
orders and the time changing in between. Whatever happens to it, its store only undergoes writes
that are allowed: `World.written_of_mem_passes`. -/

namespace Paybook

open Time

/-! ## Requests of calm worlds -/

/-- What is allowed of a request holds of the answer of a calm world. -/
theorem Request.Allowed.answer {held : List LockKey} {r : Request} {P : r.Reply → Store → Prop}
    {w : World} (hw : w.Calm) (h : r.Allowed held w.store P) :
    P (w.answer r).1 (w.answer r).2.store ∧ (w.answer r).2.Calm ∧
      Relation.ReflGen Store.Writes w.store (w.answer r).2.store := by
  cases r with
  | get id => rw [hw.answer_get]; exact ⟨h, hw, .refl⟩
  | query sel => rw [hw.answer_query]; exact ⟨h, hw, .refl⟩
  | insert d =>
    rw [hw.answer_insert]
    exact ⟨(h.2 w.now).2, w.calm_withStore _, .single (.insert d w.now (h.2 w.now).1)⟩
  | update e =>
    rw [hw.answer_update h.2.1]
    exact ⟨h.2.2.2, w.calm_withStore _, .single (h.2.1.writes h.2.2.1)⟩
  | lock => exact ⟨h, hw, .refl⟩
  | verdict desk => cases desk <;> exact ⟨h _, hw, .refl⟩
  | user | order | findReference | contains | clock | token => exact ⟨h _, hw, .refl⟩

/-! ## Histories -/

/-- Something that happens to a ledger. -/
inductive Event where
  | call (c : Call)
  | user (u : User)
  | order (o : Order)
  | time (now : Instant)
deriving DecidableEq, Repr

/-- The worlds that a program passes when it runs alone, from its start to its end. -/
def Program.worlds {α : Type} : Program α → World → List World
  | done _, w => [w]
  | ask r next, w => w :: (next (w.answer r).1).worlds (w.answer r).2

/-- The world after an event. -/
def Event.after (t : Terms) : Event → World → World
  | call c, w => (c.run t w).2
  | user u, w => w.registerUser u
  | order o, w => w.registerOrder o
  | time now, w => w.atTime now

/-- The worlds that are passed during an event. -/
def Event.worlds (t : Terms) : Event → World → List World
  | call c, w => (c.program t).worlds w
  | user _, w | order _, w | time _, w => [w]

namespace World

/-- The world after some events. -/
def after (t : Terms) (w : World) (es : List Event) : World := es.foldl (fun w e => e.after t w) w

theorem after_append (t : Terms) (w : World) (es es' : List Event) :
    w.after t (es ++ es') = (w.after t es).after t es' := List.foldl_append

/-- The worlds that are passed during some events, and the one after them. -/
def passes (t : Terms) : World → List Event → List World
  | w, [] => [w]
  | w, e :: es => e.worlds t w ++ (e.after t w).passes t es

end World

/-- A store and one that writes have made of it. -/
abbrev Store.Written : Store → Store → Prop := Relation.ReflTransGen Store.Writes

theorem Store.Written.grows {s s' : Store} (h : s.Written s') : s.Grows s' := by
  induction h with
  | refl => exact .refl s
  | tail _ hw ih => exact ih.trans hw.grows

theorem Store.Written.orderSafe {s s' : Store} (h : s.Written s') (hs : s.OrderSafe) :
    s'.OrderSafe := by
  induction h with
  | refl => exact hs
  | tail _ hw ih => exact ih.of_writes hw

theorem Store.Written.solvent {s s' : Store} (h : s.Written s') (hs : s.Solvent) : s'.Solvent := by
  induction h with
  | refl => exact hs
  | tail _ hw ih => exact ih.of_writes hw

/-! ## Histories only write what is allowed -/

variable {w v : World} {t : Terms}

theorem Program.Secures.run {α : Type} {p : Program α} {post : Program.Post α}
    {held : List LockKey} (h : p.Secures held post w.store) (hw : w.Calm) :
    (p.run w).2.Calm ∧ w.store.Written (p.run w).2.store := by
  induction p generalizing held w with
  | done o => exact ⟨hw, .refl⟩
  | ask r next ih =>
    obtain ⟨hnext, hcalm, hstep⟩ := (h w.store (.refl held w.store)).answer hw
    obtain ⟨hcalm', hrest⟩ := ih _ hnext hcalm
    exact ⟨hcalm', hstep.to_reflTransGen.trans hrest⟩

theorem Program.Secures.of_mem_worlds {α : Type} {p : Program α} {post : Program.Post α}
    {held : List LockKey} (h : p.Secures held post w.store) (hw : w.Calm) (hv : v ∈ p.worlds w) :
    v.Calm ∧ w.store.Written v.store ∧ v.store.Written (p.run w).2.store := by
  induction p generalizing held w with
  | done o =>
    rw [List.mem_singleton.1 hv]
    exact ⟨hw, .refl, .refl⟩
  | ask r next ih =>
    rcases List.mem_cons.1 hv with rfl | hv
    · exact ⟨hw, .refl, (h.run hw).2⟩
    · obtain ⟨hnext, hcalm, hstep⟩ := (h w.store (.refl held w.store)).answer hw
      obtain ⟨hcalm', hto, hfrom⟩ := ih _ hnext hcalm hv
      exact ⟨hcalm', hstep.to_reflTransGen.trans hto, hfrom⟩

theorem Event.written (e : Event) (hw : w.Calm) :
    (e.after t w).Calm ∧ w.store.Written (e.after t w).store := by
  cases e with
  | call c => exact ((c.safe t).secures [] w.store).run hw
  | user | order | time => exact ⟨hw, .refl⟩

theorem Event.written_of_mem_worlds {e : Event} (hw : w.Calm) (hv : v ∈ e.worlds t w) :
    v.Calm ∧ w.store.Written v.store ∧ v.store.Written (e.after t w).store := by
  cases e with
  | call c => exact ((c.safe t).secures [] w.store).of_mem_worlds hw hv
  | user | order | time =>
    rw [List.mem_singleton.1 hv]
    exact ⟨hw, .refl, .refl⟩

namespace World

theorem written_after (hw : w.Calm) (es : List Event) :
    (w.after t es).Calm ∧ w.store.Written (w.after t es).store := by
  induction es generalizing w with
  | nil => exact ⟨hw, .refl⟩
  | cons e es ih =>
    obtain ⟨hcalm, hfirst⟩ := e.written (t := t) hw
    obtain ⟨hcalm', hrest⟩ := ih hcalm
    exact ⟨hcalm', hfirst.trans hrest⟩

theorem written_of_mem_passes {es : List Event} (hw : w.Calm) (hv : v ∈ w.passes t es) :
    v.Calm ∧ w.store.Written v.store ∧ v.store.Written (w.after t es).store := by
  induction es generalizing w with
  | nil =>
    rw [List.mem_singleton.1 hv]
    exact ⟨hw, .refl, .refl⟩
  | cons e es ih =>
    obtain ⟨hcalm, hfirst⟩ := e.written (t := t) hw
    rcases List.mem_append.1 hv with hv | hv
    · obtain ⟨hcalm', hto, hfrom⟩ := Event.written_of_mem_worlds hw hv
      exact ⟨hcalm', hto, hfrom.trans (written_after hcalm es).2⟩
    · obtain ⟨hcalm', hto, hfrom⟩ := ih hcalm hv
      exact ⟨hcalm', hfirst.trans hto, hfrom⟩

theorem after_mem_passes (t : Terms) (w : World) (es : List Event) :
    w.after t es ∈ w.passes t es := by
  induction es generalizing w with
  | nil => exact List.mem_singleton_self _
  | cons e es ih => exact List.mem_append_right _ (ih (e.after t w))

/-! ## What holds of every history -/

/-- Whatever happens to a ledger that was empty, no order has two completed payments or two
completed refunds, and a completed refund of an order gives a completed payment of it back, to the
same user, in full, and by the same method. -/
theorem orders_settled_once (t : Terms) (w : World) (es : List Event) (order : Nat) :
    (((w.withStore .empty).after t es).store.query (Payment.doneFor order .payment)).length ≤ 1 ∧
    (((w.withStore .empty).after t es).store.query (Payment.doneFor order .refund)).length ≤ 1 ∧
    ∀ r ∈ ((w.withStore .empty).after t es).store.query (Payment.doneFor order .refund),
      ∃ p ∈ ((w.withStore .empty).after t es).store.query (Payment.doneFor order .payment),
        p.user = r.user ∧ p.amount = r.amount ∧ p.method = r.method := by
  have hs := (written_after (t := t) (w.calm_withStore .empty) es).2.orderSafe .empty
  refine ⟨hs.once order .payment (by simp [EntryKind.ofOrder]),
    hs.once order .refund (by simp [EntryKind.ofOrder]), fun r hr => ?_⟩
  obtain ⟨hmem, hsel⟩ := Store.mem_query.1 hr
  obtain ⟨ho, -, hk⟩ := Store.selects_doneFor.1 hsel
  obtain ⟨p, hp, hkind, hc, horder, hrest⟩ := hs.backed r hmem hk
  exact ⟨p, Store.mem_query.2 ⟨hp, Store.selects_doneFor.2 ⟨horder.trans ho, hc, hkind⟩⟩, hrest⟩

/-- In a ledger that was empty and comes to be exact, the balance of every wallet exists and is not
negative in every world on the way. -/
theorem balance_nonneg (t : Terms) (w : World) (es : List Event)
    (hx : Exact ((w.withStore .empty).after t es).store.entries)
    (hv : v ∈ (w.withStore .empty).passes t es) (user : Nat) :
    ∃ b, ((Wallet.holds user).run v).1 = .returned b ∧ Decimal.zero ≤ b.value := by
  obtain ⟨hcalm, hto, hfrom⟩ := written_of_mem_passes (w.calm_withStore .empty) hv
  -- Entries are never lost and never change their amounts, so the ledger was exact all the way.
  have hxv := hfrom.grows.exact hx
  obtain ⟨b, hb, hval⟩ := Store.balance_exact hxv user
  refine ⟨b, ?_, ?_⟩
  · rw [Program.run_holds hcalm, hb]
    rfl
  · rw [Decimal.le_iff_toRat, hval, Decimal.toRat_zero]
    exact hto.solvent .empty hxv user

/-- Ten are put into a wallet and four are spent. -/
theorem balance_nonneg_after_spending :
    ∃ b, ((Wallet.holds 1).run (((World.opening {} 0 ⟨0, 0⟩ fun _ => 0).withStore .empty).after {}
      [.user ⟨1, "Ada"⟩, .call (.charge 1 (.ofWord 10) .adminCredit ""),
        .call (.withdrawForPayment 1 (.ofWord 4) "")])).1 = .returned b ∧
      Decimal.zero ≤ b.value := by
  refine balance_nonneg {} _ _ ⟨0, Nat.zero_le _, by decide, ?_⟩ (after_mem_passes _ _ _) 1
  have htotal : ∀ es : List Entry, es.map (fun e => e.amount.value) = [.ofWord 10, .ofWord 4] →
      total es = 14 := by
    intro es hes
    have hmap := congrArg (List.map Decimal.toRat) hes
    rw [List.map_map] at hmap
    change (es.map (Decimal.toRat ∘ fun e => e.amount.value)).sum = 14
    rw [hmap]
    have hten : (Decimal.ofWord 10).toRat = 10 := by simp [Decimal.toRat]
    have hfour : (Decimal.ofWord 4).toRat = 4 := by simp [Decimal.toRat]
    rw [List.map_cons, List.map_singleton, List.sum_cons, List.sum_singleton, hten, hfour]
    norm_num
  rw [htotal _ rfl]
  norm_num

end World

end Paybook
