import Paybook.Directory
import Paybook.Gateway.Simulated
import Paybook.Locks.Key
import Paybook.Store.Basic

/-! # Calls as programs

A call of the book is a program: a finite tree of requests, each with a continuation for every
reply. The tree says in which order locks are taken, directories are read, entries are written and
gateways are asked, and leaves open who answers; one request is one indivisible step. -/

namespace Paybook

/-- How a call ends: it returns, it fails, or it stops because a number outgrew its range, such as a
sum of money the decimals, with whatever was written so far. -/
inductive Outcome (α : Type) where
  | returned (a : α)
  | failed (f : Failure)
  | overflowed
deriving DecidableEq, Repr

/-- A random number of 128 bits, for references that nobody else has. -/
abbrev Token := BitVec 128

/-- The two card gateways. -/
inductive CardDesk where
  | charges
  | payments
deriving DecidableEq, Repr

/-- What a call may ask for. -/
inductive Request where
  /-- Waits for a lock, which is kept until the call ends. -/
  | lock (key : LockKey)
  | user (id : Nat)
  | order (id : Nat)
  | get (id : Nat)
  | query (selection : Selection)
  | insert (draft : Draft)
  | update (entry : Entry)
  | findReference (reference : String)
  | contains (id : Nat)
  | verdict (desk : CardDesk)
  | clock
  | token
deriving DecidableEq, Repr

/-- What a request is answered with. -/
@[reducible] def Request.Reply : Request → Type
  | lock _ => Unit
  | user _ => Option User
  | order _ => Option Order
  | get _ => Attempt (Option Entry)
  | query _ => Attempt (List Entry)
  | insert _ => Attempt Entry
  | update _ => Attempt Entry
  | findReference _ => Option Entry
  | contains _ => Bool
  | verdict _ => Verdict
  | clock => Time.Instant
  | token => Token

/-- A call: its end, or a request and what to do with each reply. -/
inductive Program (α : Type) where
  | done (o : Outcome α)
  | ask (r : Request) (next : r.Reply → Program α)

namespace Program

variable {α β γ : Type}

/-- A program and what follows when it returns. -/
def bind : Program α → (α → Program β) → Program β
  | done (.returned a), f => f a
  | done (.failed e), _ => done (.failed e)
  | done .overflowed, _ => done .overflowed
  | ask r next, f => ask r fun reply => (next reply).bind f

instance : Monad Program where
  pure a := done (.returned a)
  bind := bind

/-- A program and what follows when it fails. -/
def onFailure : Program α → (Failure → Program α) → Program α
  | done (.failed e), handle => handle e
  | done (.returned a), _ => done (.returned a)
  | done .overflowed, _ => done .overflowed
  | ask r next, handle => ask r fun reply => (next reply).onFailure handle

/-- Ends with a failure. -/
def fail (e : Failure) : Program α := done (.failed e)

/-- One request. -/
def request (r : Request) : Program r.Reply := ask r fun reply => done (.returned reply)

/-- Goes on with a value, or fails. -/
def ofAttempt : Attempt α → Program α
  | .ok a => pure a
  | .error e => fail e

/-- Goes on with a number that is in range, or stops when there is none. -/
def inRange : Option α → Program α
  | some a => pure a
  | none => done .overflowed

/-- Fails unless a condition holds. -/
def require (condition : Bool) (e : Failure) : Program Unit :=
  if condition then pure () else fail e

theorem bind_assoc (p : Program α) (f : α → Program β) (g : β → Program γ) :
    (p.bind f).bind g = p.bind fun a => (f a).bind g := by
  induction p with
  | done o => cases o <;> rfl
  | ask r next ih => simp only [bind]; congr 1; funext reply; exact ih reply

theorem bind_pure (p : Program α) : p.bind (fun a => done (.returned a)) = p := by
  induction p with
  | done o => cases o <;> rfl
  | ask r next ih => simp only [bind]; congr 1; funext reply; exact ih reply

theorem pure_bind (a : α) (f : α → Program β) : (pure a : Program α).bind f = f a := rfl

instance : LawfulMonad Program :=
  LawfulMonad.mk' Program (fun p => bind_pure p) (fun _ _ => rfl) bind_assoc

end Program

end Paybook
