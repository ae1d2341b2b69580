import Paybook.Service.Program
import Paybook.Store.Trouble

/-! # Running calls

The world answers the requests of calls that run one after the other: locks are free, entries go to
a store, gateways give their verdicts in order, and the clock stands still during a call. -/

namespace Paybook

open Time

/-- Everything outside of a call. -/
structure World where
  storage : TroubledStore := {}
  users : Directory User := {}
  orders : Directory Order := {}
  charges : CardGateway
  payments : CardGateway
  now : Instant
  /-- The random numbers in their order, and how many of them were used so far. -/
  tokens : Nat → Token
  tokensUsed : Nat := 0

namespace World

def store (w : World) : Store := w.storage.store

/-- The world with a user registered. -/
def registerUser (w : World) (u : User) : World := { w with users := w.users.register u.id u }

/-- The world with an order registered. -/
def registerOrder (w : World) (o : Order) : World := { w with orders := w.orders.register o.id o }

/-- The world at a time. -/
def atTime (w : World) (now : Instant) : World := { w with now := now }

/-- The reply to a request, and the world afterwards. -/
def answer (w : World) : (r : Request) → r.Reply × World
  | .lock _ => ((), w)
  | .user id => (w.users.find? id, w)
  | .order id => (w.orders.find? id, w)
  | .get id => let (reply, s) := w.storage.get id w.now; (reply, { w with storage := s })
  | .query sel => let (reply, s) := w.storage.query sel w.now; (reply, { w with storage := s })
  | .insert draft =>
    let (reply, s) := w.storage.insert draft w.now; (reply, { w with storage := s })
  | .update e => let (reply, s) := w.storage.update e w.now; (reply, { w with storage := s })
  | .findReference reference => (w.store.findReference? reference, w)
  | .contains id => (w.store.contains id, w)
  | .verdict .charges => (w.charges.next, { w with charges := w.charges.advance })
  | .verdict .payments => (w.payments.next, { w with payments := w.payments.advance })
  | .clock => (w.now, w)
  | .token => (w.tokens w.tokensUsed, { w with tokensUsed := w.tokensUsed + 1 })

end World

namespace Program

variable {α β : Type}

/-- Runs a program alone. -/
def run : Program α → World → Outcome α × World
  | done o, w => (o, w)
  | ask r next, w => let (reply, w) := w.answer r; (next reply).run w

theorem run_bind (p : Program α) (f : α → Program β) (w : World) :
    (p.bind f).run w =
      match p.run w with
      | (.returned a, w) => (f a).run w
      | (.failed e, w) => (.failed e, w)
      | (.overflowed, w) => (.overflowed, w) := by
  induction p generalizing w with
  | done o => cases o <;> rfl
  | ask r next ih => exact ih _ _

theorem run_onFailure (p : Program α) (handle : Failure → Program α) (w : World) :
    (p.onFailure handle).run w =
      match p.run w with
      | (.failed e, w) => (handle e).run w
      | (o, w) => (o, w) := by
  induction p generalizing w with
  | done o => cases o <;> rfl
  | ask r next ih => exact ih _ _

end Program

end Paybook
