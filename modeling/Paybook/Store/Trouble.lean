import Paybook.Store.Basic

/-! # A store with troubles

A trouble waits for a call of the store that it matches. It then makes the call fail, or changes
the entry that the call names, as another caller would between the reading and the writing of this
one. A store without troubles is the plain store. -/

namespace Paybook

open Time

/-- A call of the store. -/
inductive StoreCall where
  | insert (draft : Draft)
  | update (entry : Entry)
  | get (id : Nat)
  | query (selection : Selection)
deriving DecidableEq, Repr

/-- The sort of a call of the store. -/
inductive StoreCallSort where
  | insert
  | update
  | get
  | query
deriving DecidableEq, Repr

namespace StoreCall

def sort : StoreCall → StoreCallSort
  | insert _ => .insert
  | update _ => .update
  | get _ => .get
  | query _ => .query

/-- The kind of the entry that the call writes. -/
def kind? : StoreCall → Option EntryKind
  | insert d => some d.kind
  | update e => some e.kind
  | get _ | query _ => none

/-- The status that the call writes over a stored one. -/
def status? : StoreCall → Option Status
  | update e => some e.status
  | insert _ | get _ | query _ => none

/-- The identifier of the entry that the call names. -/
def entry? : StoreCall → Option Nat
  | update e => some e.id
  | get id => some id
  | insert _ | query _ => none

end StoreCall

/-- What a trouble does. -/
inductive TroubleEffect where
  /-- The call fails. -/
  | refuse
  /-- The entry is stored again unchanged. -/
  | bump
  /-- The entry is cancelled. -/
  | cancel
  /-- The entry is deleted. -/
  | delete
deriving DecidableEq, Repr

/-- A trouble: the calls that it matches, how many of them it lets pass first, how often it strikes
then, and what it does. -/
structure Trouble where
  sort : StoreCallSort
  kind : Option EntryKind := none
  status : Option Status := none
  entry : Option Nat := none
  skip : Nat := 0
  times : Nat := 1
  effect : TroubleEffect := .refuse
  text : String := "store fault"
deriving DecidableEq, Repr

/-- Whether the trouble matches a call. A condition that is not set holds. -/
def Trouble.matches (t : Trouble) (c : StoreCall) : Bool :=
  t.times != 0 && c.sort == t.sort &&
  (t.kind.isNone || t.kind == c.kind?) && (t.status.isNone || t.status == c.status?) &&
  (t.entry.isNone || t.entry == c.entry?)

/-- The first trouble that strikes at a call, and the troubles afterwards. -/
def Trouble.strike (c : StoreCall) : List Trouble → Option Trouble × List Trouble
  | [] => (none, [])
  | t :: ts =>
    if t.matches c then
      if t.skip = 0 then (some t, { t with times := t.times - 1 } :: ts)
      else
        let (struck, ts) := Trouble.strike c ts
        (struck, { t with skip := t.skip - 1 } :: ts)
    else
      let (struck, ts) := Trouble.strike c ts
      (struck, t :: ts)

/-- A store and the troubles that wait for its calls. -/
structure TroubledStore where
  store : Store := .empty
  troubles : List Trouble := []
deriving DecidableEq, Repr

namespace TroubledStore

/-- What a trouble does to the entry that a call names, or the failure of the call. -/
def suffer (s : Store) (c : StoreCall) (t : Trouble) (now : Instant) : Attempt Store :=
  match t.effect with
  | .refuse => .error (.storage t.text)
  | effect =>
    match c.entry?.bind s.get? with
    | none => .ok s
    | some e =>
      match effect with
      | .refuse => .error (.storage t.text)
      | .bump => (s.update e).map Prod.snd
      | .cancel => do
        let e ← e.cancel t.text now
        (s.update e).map Prod.snd
      | .delete => .ok (s.delete e.id)

/-- Lets a trouble strike before a call, if one does. -/
def before (s : TroubledStore) (c : StoreCall) (now : Instant) : Attempt Unit × TroubledStore :=
  match Trouble.strike c s.troubles with
  | (none, ts) => (.ok (), ⟨s.store, ts⟩)
  | (some t, ts) =>
    match suffer s.store c t now with
    | .ok store => (.ok (), ⟨store, ts⟩)
    | .error f => (.error f, ⟨s.store, ts⟩)

/-- Inserts the entry of a draft. -/
def insert (s : TroubledStore) (draft : Draft) (now : Instant) : Attempt Entry × TroubledStore :=
  match s.before (.insert draft) now with
  | (.error f, s) => (.error f, s)
  | (.ok (), s) => (.ok (s.store.upcoming draft now), { s with store := s.store.insert draft now })

/-- Updates an entry. -/
def update (s : TroubledStore) (e : Entry) (now : Instant) : Attempt Entry × TroubledStore :=
  match s.before (.update e) now with
  | (.error f, s) => (.error f, s)
  | (.ok (), s) =>
    match s.store.update e with
    | .ok (stored, store) => (.ok stored, { s with store := store })
    | .error f => (.error f, s)

/-- The entry with an identifier. -/
def get (s : TroubledStore) (id : Nat) (now : Instant) : Attempt (Option Entry) × TroubledStore :=
  match s.before (.get id) now with
  | (.error f, s) => (.error f, s)
  | (.ok (), s) => (.ok (s.store.get? id), s)

/-- The entries of a selection. -/
def query (s : TroubledStore) (sel : Selection) (now : Instant) :
    Attempt (List Entry) × TroubledStore :=
  match s.before (.query sel) now with
  | (.error f, s) => (.error f, s)
  | (.ok (), s) => (.ok (s.store.query sel), s)

theorem before_nil (store : Store) (c : StoreCall) (now : Instant) :
    before ⟨store, []⟩ c now = (.ok (), ⟨store, []⟩) := rfl

end TroubledStore

end Paybook
