import Paybook.Service.Program
import Paybook.Text.Numeral

/-! # Bringing entries to an end

Steps that the services share: checks of identifiers, taking locks, references that nobody else
has, and the last update of an entry. -/

namespace Paybook

namespace Program

/-- Fails for the identifier 0. -/
def requireId (id : Nat) (what : String) : Program Unit :=
  require (id ≠ 0) (.invalidArgument s!"{what} id must be positive")

/-- Takes locks one after the other. -/
def takeLocks : List LockKey → Program Unit
  | [] => pure ()
  | key :: keys => do
    request (.lock key)
    takeLocks keys

/-- Takes the locks of some keys, each once and in the order of all keys. -/
def acquire (keys : List LockKey) : Program Unit := takeLocks (LockKey.schedule keys)

/-- The entry with an identifier, if there is one. -/
def get? (id : Nat) : Program (Option Entry) := do ofAttempt (← request (.get id))

/-- The entry with an identifier. -/
def load (id : Nat) : Program Entry := do
  match ← get? id with
  | some e => return e
  | none => fail (.notFound s!"Transaction {id} not found")

/-- The entries of a selection. -/
def select (selection : Selection) : Program (List Entry) := do
  ofAttempt (← request (.query selection))

/-- Inserts the entry of a draft. -/
def book (draft : Draft) : Program Entry := do ofAttempt (← request (.insert draft))

/-- Updates an entry. -/
def update (e : Entry) : Program Entry := do ofAttempt (← request (.update e))

/-- Makes a change of an entry that is not stored yet. -/
def change (c : Change) (e : Entry) : Program Entry := do
  let now ← request .clock
  ofAttempt (c.apply e now)

/-- A reference with a random number behind a word. -/
def freshReference (word : String) : Program String := do
  let token ← request .token
  return word ++ "-" ++ String.ofList (Text.writeHex 32 token.toNat)

/-- Completes an entry under a reference. -/
def complete (e : Entry) (reference : String) : Program Entry := do
  update (← change (.complete reference) e)

/-- Completes an entry under a reference of its own. -/
def completeFreshly (e : Entry) (word : String) : Program Entry := do
  let reference ← freshReference word
  complete e reference

/-- Fails an entry because of a failure, if it is still pending, and ends with that failure. What
goes wrong on the way is left at that. -/
def abandon (id : Nat) (e : Failure) : Program Entry := do
  match ← request (.get id) with
  | .ok (some entry) =>
    if entry.isFinal then fail e
    else
      let now ← request .clock
      match entry.fail e.detail now with
      | .ok entry =>
        let _ ← request (.update entry)
        fail e
      | .error _ => fail e
  | _ => fail e

/-- Goes on with a new entry and fails it when that fails. -/
def orAbandon (e : Entry) (p : Program Entry) : Program Entry := p.onFailure (abandon e.id)

end Program

end Paybook
