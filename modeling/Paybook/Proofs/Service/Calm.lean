import Paybook.Proofs.Store.Writes
import Paybook.Service.World

/-! # Calm worlds

A world is calm when no troubles wait for the calls of its store. It answers as the plain store
does, and stays calm. -/

namespace Paybook

namespace World

variable {w : World}

/-- Whether no troubles wait for the calls of the store. -/
def Calm (w : World) : Prop := w.storage.troubles = []

/-- The world with another store. -/
def withStore (w : World) (s : Store) : World := { w with storage := ⟨s, []⟩ }

@[simp] theorem store_withStore (w : World) (s : Store) : (w.withStore s).store = s := rfl

theorem calm_withStore (w : World) (s : Store) : (w.withStore s).Calm := rfl

theorem Calm.answer_get (hw : w.Calm) (id : Nat) :
    w.answer (.get id) = (.ok (w.store.get? id), w) := by
  obtain ⟨⟨store, troubles⟩, _⟩ := w
  cases hw
  rfl

theorem Calm.answer_query (hw : w.Calm) (sel : Selection) :
    w.answer (.query sel) = (.ok (w.store.query sel), w) := by
  obtain ⟨⟨store, troubles⟩, _⟩ := w
  cases hw
  rfl

theorem Calm.answer_insert (hw : w.Calm) (d : Draft) :
    w.answer (.insert d) =
      (.ok (w.store.upcoming d w.now), w.withStore (w.store.insert d w.now)) := by
  obtain ⟨⟨store, troubles⟩, _⟩ := w
  cases hw
  rfl

theorem Calm.answer_update {e : Entry} (hw : w.Calm) (hf : w.store.Follows e) :
    w.answer (.update e) =
      (.ok (Store.bumped e), w.withStore (w.store.replace (Store.bumped e))) := by
  have hu := hf.update
  obtain ⟨⟨store, troubles⟩, _⟩ := w
  cases hw
  simp only [answer, TroubledStore.update, TroubledStore.before_nil]
  rw [show store.update e = _ from hu]
  rfl

end World

namespace Program

variable {w : World}

theorem run_requireId {id : Nat} (h : id ≠ 0) (what : String) :
    (requireId id what).run w = (.returned (), w) := by
  rw [requireId, decide_eq_true h]
  rfl

theorem run_select (hw : w.Calm) (sel : Selection) :
    (select sel).run w = (.returned (w.store.query sel), w) := by
  change (let (reply, w) := w.answer (.query sel); (ofAttempt reply).run w) = _
  rw [hw.answer_query]
  rfl

theorem run_holds (hw : w.Calm) (user : Nat) :
    (Wallet.holds user).run w =
      (inRange (Balance.ofEntries? (w.store.query (Wallet.holdings user)))).run w := by
  change ((select (Wallet.holdings user)).bind fun es => inRange (Balance.ofEntries? es)).run w = _
  rw [run_bind, run_select hw]

end Program

end Paybook
