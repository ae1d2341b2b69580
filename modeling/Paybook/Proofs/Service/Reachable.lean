import Paybook.Proofs.Service.Effects
import Paybook.Proofs.Service.Ledger

/-! # What holds of every ledger

What holds of the empty store and is kept by the effects of calls holds of every store that a ledger
may come to: `World.after_induction`. That payments are made by methods that orders can be paid by
is such a fact, which the effects of refunds rest on. -/

namespace Paybook

open Time

variable {w w' : World} {t : Terms}

namespace Store

variable {s s' : Store} {es : List Entry}

theorem Payable.empty : Store.empty.Payable := fun _ h => by cases h

theorem Payable.extends (h : s.Payable) (he : s.Extends es s')
    (hes : ∀ e ∈ es, e.kind = .payment → Payment.canPay e.method = true) : s'.Payable := by
  intro e hmem hkind
  rw [he.entries] at hmem
  rcases List.mem_append.1 hmem with hmem | hmem
  · exact h e hmem hkind
  · exact hes e hmem hkind

end Store

/-- An entry of a sound draft that is a payment was made by a method that orders can be paid by. -/
theorem Draft.Sound.canPay {d : Draft} {s : Store} {e : Entry} {st : Status}
    {reference : Option String} {now : Instant} (h : d.Sound s) (he : e.Made d now st reference)
    (hkind : e.kind = .payment) : Payment.canPay e.method = true := by
  rw [he.kind_eq] at hkind
  rw [he.method_eq]
  unfold Sound at h
  rw [hkind] at h
  exact h.1

namespace Action

theorem Effect.payable {a : Action} {o : Outcome Entry} (h : a.Effect w o w') (hs : a.Sound w)
    (hpay : w.store.Payable) : w'.store.Payable := by
  cases h with
  | refused | stopped => exact hpay
  | @instant d _ _ e _ gains made =>
    refine hpay.extends gains.store ?_
    simp only [List.mem_singleton, forall_eq]
    intro hkind
    have hwallet : d.kind ∈ EntryKind.ofWallet := hs
    rw [← made.kind_eq, hkind] at hwallet
    simp [EntryKind.ofWallet] at hwallet
  | entrusted done =>
    cases done with
    | alone _ _ gains made =>
      refine hpay.extends gains.store ?_
      simp only [List.mem_singleton, forall_eq]
      exact Draft.Sound.canPay hs made
    | paired _ legKind gains made legMade =>
      refine hpay.extends gains.store ?_
      simp only [List.mem_cons, List.not_mem_nil, or_false, forall_eq_or_imp, forall_eq]
      refine ⟨Draft.Sound.canPay hs made, fun hkind => ?_⟩
      rw [legMade.kind_eq] at hkind
      cases hkind
      simpa [EntryKind.ofWallet] using EntryKind.mem_ofWallet_of_leg? legKind
  | declined _ gains made =>
    refine hpay.extends gains.store ?_
    simp only [List.mem_singleton, forall_eq]
    exact Draft.Sound.canPay hs made
  | settled _ origin _ _ store =>
    rw [store]
    intro x hx hkind
    rcases Store.mem_replaced hx with ⟨hx, -⟩ | rfl
    · exact hpay x hx hkind
    · rw [Entry.kind_eq_of_origin origin] at hkind
      rw [Entry.method_eq_of_origin origin]
      exact hpay _ (Store.get?_eq_some.1 hs.1).1 hkind

end Action

/-- Whether the effects of calls of a sort keep what is said of a store. -/
def Call.Keep (t : Terms) (A : Call → Prop) (P : Store → Prop) : Prop :=
  ∀ (w w' : World) (c : Call) (a : Action) (o : Outcome Entry), w.Calm → w.store.Payable → A c →
    c.Plans t w a → a.Effect w o w' → P w.store → P w'.store

namespace World

variable {P : Store → Prop} {A : Call → Prop} {es : List Event}

/-- A history that starts calm and with usable payments goes on so, and keeps whatever the effects
of its calls keep. -/
theorem after_kept (h : Call.Keep t A P) (hes : ∀ c, .call c ∈ es → A c) (hw : w.Calm)
    (hpay : w.store.Payable) (hP : P w.store) :
    (w.after t es).store.Payable ∧ P (w.after t es).store := by
  induction es generalizing w with
  | nil => exact ⟨hpay, hP⟩
  | cons e es ih =>
    have hrest := fun c hc => hes c (List.mem_cons_of_mem e hc)
    cases e with
    | call c =>
      obtain ⟨a, hplan, heffect⟩ := c.effect t hw hpay
      refine ih hrest (Event.written (t := t) (.call c) hw).1 ?_ ?_
      · exact heffect.payable (hplan.sound hpay) hpay
      · exact h w _ c a _ hw hpay (hes c List.mem_cons_self) hplan heffect hP
    | user | order | time => exact ih hrest hw hpay hP

/-- What holds of the empty store and is kept by the effects of the calls of a history holds of the
store after it. -/
theorem after_induction (w : World) (hempty : P .empty) (h : Call.Keep t A P)
    (hes : ∀ c, .call c ∈ es → A c) : P ((w.withStore .empty).after t es).store :=
  (after_kept h hes (w.calm_withStore .empty) .empty hempty).2

/-- In every ledger payments were made by methods that orders can be paid by. -/
theorem payable_after (t : Terms) (w : World) (es : List Event) :
    ((w.withStore .empty).after t es).store.Payable := by
  have hkeep : Call.Keep t (fun _ => True) fun _ => True := by simp [Call.Keep]
  exact (after_kept hkeep (fun _ _ => trivial) (w.calm_withStore .empty) .empty trivial).1

end World

end Paybook
