import Paybook.Proofs.Program.Leads
import Paybook.Service.Call

/-! # What calls look at

Whatever a call decides, it decides from the clock, the directories, the entry that it names and the
completed entries under its keys, those of the user and of the order that it is about. In worlds
that are the same in this respect, its checks end alike: `Call.Sees.run_eq`. -/

namespace Paybook

open Program Time

/-! ## Worlds that look the same -/

namespace Call

/-- The entry that a refund or a settlement names. -/
def named? : Call → Option Nat
  | refund entry _ | settle entry _ _ _ => some entry
  | _ => none

/-- The keys of the user and of the order that a call is about. A refund or a settlement of nothing
has none. -/
def keys (s : Store) : Call → List LockKey
  | charge user _ _ _ | withdraw user _ _ _ | withdrawForPayment user _ _ | adminCredit user _ _ _
  | adminDebit user _ _ _ => [.user user]
  | pay user order _ => [.order order, .user user]
  | refund entry _ | settle entry _ _ _ => (s.get? entry).elim [] Entry.keys

/-- Whether a request asks for what a call may look at. -/
def Seeks (c : Call) (s : Store) : Request → Prop
  | .user _ | .order _ | .clock => True
  | .get id => c.named? = some id
  | .query sel => sel.status = some .completed ∧ ∃ k ∈ c.keys s, sel.Pins k
  | _ => False

/-- Whether another world is the same in all that a call may look at. -/
structure Sees (c : Call) (w w' : World) : Prop where
  calm : w'.Calm
  now : w'.now = w.now
  users : w'.users = w.users
  orders : w'.orders = w.orders
  named : ∀ id, c.named? = some id → w'.store.get? id = w.store.get? id
  done : ∀ sel : Selection, sel.status = some .completed → ∀ k ∈ c.keys w.store, sel.Pins k →
    w'.store.query sel = w.store.query sel

variable {c : Call} {w w' : World}

theorem Sees.refl (c : Call) (hw : w.Calm) : c.Sees w w :=
  ⟨hw, rfl, rfl, rfl, fun _ _ => rfl, fun _ _ _ _ _ => rfl⟩

theorem Sees.keys_eq (h : c.Sees w w') : c.keys w'.store = c.keys w.store := by
  cases c with
  | refund | settle => rw [keys, keys, h.named _ rfl]
  | charge | withdraw | withdrawForPayment | adminCredit | adminDebit | pay => rfl

theorem Sees.symm (h : c.Sees w w') (hw : w.Calm) : c.Sees w' w where
  calm := hw
  now := h.now.symm
  users := h.users.symm
  orders := h.orders.symm
  named id hid := (h.named id hid).symm
  done sel hsel k hk hp := (h.done sel hsel k (h.keys_eq ▸ hk) hp).symm

/-- Such a request is answered alike. -/
theorem Sees.answer (h : c.Sees w w') (hw : w.Calm) {r : Request} (hr : c.Seeks w.store r) :
    (w.answer r).2 = w ∧ w'.answer r = ((w.answer r).1, w') := by
  cases r with
  | user id => exact ⟨rfl, congrArg (fun d => (d.find? id, w')) h.users⟩
  | order id => exact ⟨rfl, congrArg (fun d => (d.find? id, w')) h.orders⟩
  | clock => exact ⟨rfl, congrArg (fun now => (now, w')) h.now⟩
  | get id =>
    rw [hw.answer_get, h.calm.answer_get, h.named id hr]
    exact ⟨rfl, rfl⟩
  | query sel =>
    obtain ⟨hsel, k, hk, hp⟩ := hr
    rw [hw.answer_query, h.calm.answer_query, h.done sel hsel k hk hp]
    exact ⟨rfl, rfl⟩
  | lock | insert | update | findReference | contains | verdict | token => exact hr.elim

/-- A program that asks for nothing else ends alike. -/
theorem Sees.run_eq {α : Type} {p : Program α} (h : c.Sees w w') (hw : w.Calm)
    (hp : p.Only (c.Seeks w.store)) : (p.run w').1 = (p.run w).1 := by
  induction p with
  | done o => rfl
  | ask r next ih =>
    obtain ⟨hstill, hsame⟩ := h.answer hw hp.1
    rw [run_ask, run_ask, hsame, hstill]
    exact ih _ (hp.2 _)

end Call

/-! ## Checks that look at nothing -/

section Nothing

variable {α : Type} {w w' : World}

theorem Program.run_require_bind_eq {b : Bool} {e : Failure} {f : Unit → Program α}
    (h : ((f ()).run w').1 = ((f ()).run w).1) :
    ((require b e >>= f).run w').1 = ((require b e >>= f).run w).1 := by
  cases b with
  | true => exact h
  | false => rfl

theorem Program.run_inRange_eq (x : Option α) : ((inRange x).run w').1 = ((inRange x).run w).1 := by
  cases x <;> rfl

end Nothing

/-! ## What checks ask for -/

variable {sort : Request → Prop}

namespace Wallet

variable {user : Nat}

theorem only_requireUser (h : sort (.user user)) : (requireUser user).Only sort :=
  (Only.request h).bind fun _ => .require _ _

theorem only_requireCovered (h : sort (.query (holdings user))) (a : Amount) :
    (requireCovered user a).Only sort :=
  ((only_select h).bind fun _ => .inRange _).bind fun _ => .require _ _

theorem only_requireWithinDay {kind : EntryKind} (hclock : sort .clock)
    (h : ∀ window, sort (.query (doneWithin user kind window))) (t : Terms) (a : Amount) :
    (requireWithinDay t user kind a).Only sort := by
  unfold requireWithinDay
  split
  · trivial
  · refine (Only.request hclock).bind fun _ => (Only.inRange _).bind fun window => ?_
    refine (only_select (h window)).bind fun _ => (Only.inRange _).bind fun _ => ?_
    exact (Only.inRange _).bind fun _ => .require _ _

theorem only_adjustment (user : Nat) (amount : Decimal) (reason : String) (admin : Nat) :
    (adjustment user amount reason admin).Only sort :=
  (Only.require _ _).bind fun _ => (Only.require _ _).bind fun _ =>
    (Only.require _ _).bind fun _ => .ofAttempt _

end Wallet

namespace Payment

theorem only_hasDone {order : Nat} {kind : EntryKind} (h : sort (.query (doneFor order kind))) :
    (hasDone order kind).Only sort :=
  (only_select h).bind fun _ => .done _

theorem only_requireUnpaid {order : Nat} (h : sort (.query (doneFor order .payment))) :
    (requireUnpaid order).Only sort :=
  (only_hasDone h).bind fun _ => .require _ _

theorem only_requireUnrefunded {order : Nat} (h : sort (.query (doneFor order .refund))) :
    (requireUnrefunded order).Only sort :=
  (only_hasDone h).bind fun _ => .require _ _

/-- What is checked again before an entry is completed are completed entries under its keys. -/
theorem only_requireCompletable {e : Entry} (hclock : sort .clock)
    (h : ∀ sel k, sel.status = some .completed → k ∈ e.keys → sel.Pins k → sort (.query sel))
    (t : Terms) : (requireCompletable t e).Only sort := by
  have huser : ∀ sel : Selection, sel.status = some .completed → sel.user = some e.user →
      sort (.query sel) := fun sel hsel hu => h sel (.user e.user) hsel e.user_mem_keys hu
  have horder : ∀ order, e.order = some order → ∀ kind, sort (.query (doneFor order kind)) :=
    fun order ho kind => h _ (.order order) rfl (Entry.order_mem_keys ho) rfl
  unfold requireCompletable
  split
  · refine (Wallet.only_requireCovered (huser _ rfl rfl) _).bind fun _ => ?_
    exact Wallet.only_requireWithinDay hclock (fun _ => huser _ rfl rfl) t _
  · next _ ho => exact only_requireUnpaid (horder _ ho _)
  · next _ ho =>
    refine (only_hasDone (horder _ ho _)).bind fun _ => (Only.require _ _).bind fun _ => ?_
    exact only_requireUnrefunded (horder _ ho _)
  · trivial
  · trivial
  · exact Wallet.only_requireWithinDay hclock (fun _ => huser _ rfl rfl) t _

end Payment

end Paybook
