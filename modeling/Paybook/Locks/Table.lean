import Paybook.Locks.Key

/-! # The lock table

Each key that is asked for gets a slot with a mutex of its own. A caller takes its keys one after
the other in their order and keeps what it has while it waits for the next one. Slots that nobody
uses are dropped once there are too many.

The steps of the table are `enter`, `ask`, `grant` and `leave`. Who may be granted a mutex is
settled by `isNext`: a mutex goes to the one who has waited for it longest. -/

namespace Paybook

/-- A key together with the mutex that its slot had when it was asked for. -/
structure LockSlot where
  key : LockKey
  mutex : Nat
deriving DecidableEq, Repr

/-- A caller that takes keys, or has taken them all. -/
structure LockHolder (ν : Type) where
  name : ν
  held : List LockSlot := []
  /-- The slot whose mutex it waits for. -/
  awaited : Option LockSlot := none
  /-- The keys it has not asked for yet, in their order. -/
  ahead : List LockKey
deriving DecidableEq, Repr

/-- The table: the slots, the number of mutexes made so far, the callers from the first one on, and
who waits for which mutex, from the first one on. -/
structure LockTable (ν : Type) where
  slots : List LockSlot := []
  made : Nat := 0
  holders : List (LockHolder ν) := []
  queue : List (Nat × ν) := []
deriving DecidableEq, Repr

/-- Slots that nobody uses are dropped when there are more slots than this. -/
def LockTable.slotLimit : Nat := 1024

variable {ν : Type} [DecidableEq ν]

namespace LockHolder

/-- Whether it holds all its keys. -/
def isDone (h : LockHolder ν) : Bool := h.awaited.isNone && h.ahead.isEmpty

/-- The slots that it holds or waits for. -/
def slots (h : LockHolder ν) : List LockSlot := h.held ++ h.awaited.toList

/-- The caller that holds what it waited for. -/
def granted (h : LockHolder ν) : LockHolder ν :=
  { h with held := h.slots, awaited := none }

end LockHolder

namespace LockTable

/-! ## What the table says -/

def find? (t : LockTable ν) (name : ν) : Option (LockHolder ν) :=
  t.holders.find? fun h => h.name = name

/-- Whether a caller holds the mutex. -/
def isHeld (t : LockTable ν) (mutex : Nat) : Bool :=
  t.holders.any fun h => h.held.any fun s => s.mutex == mutex

/-- Whether a caller holds the mutex of a slot or waits for it. -/
def isUsed (t : LockTable ν) (s : LockSlot) : Bool :=
  t.holders.any fun h => h.slots.any fun s' => s'.mutex == s.mutex

/-- The one who has waited longest for a mutex. -/
def firstInLine? (t : LockTable ν) (mutex : Nat) : Option ν :=
  (t.queue.find? fun (m, _) => m == mutex).map Prod.snd

/-- Whether a caller is the next one to get a mutex: nobody holds it, and nobody has waited for it
longer. -/
def isNext (t : LockTable ν) (name : ν) (mutex : Nat) : Bool :=
  !t.isHeld mutex && t.firstInLine? mutex == some name

/-! ## Steps -/

/-- Replaces the caller of this name. -/
def put (t : LockTable ν) (h : LockHolder ν) : LockTable ν :=
  { t with holders := t.holders.map fun old => if old.name = h.name then h else old }

/-- The table without the slots that nobody uses, if there are too many slots. -/
def pruned (t : LockTable ν) : LockTable ν :=
  if slotLimit < t.slots.length then { t with slots := t.slots.filter t.isUsed } else t

/-- The slot of a key, made if the key has none, and the table with it. -/
def slot (t : LockTable ν) (key : LockKey) : LockSlot × LockTable ν :=
  let t := t.pruned
  match t.slots.find? fun s => s.key = key with
  | some s => (s, t)
  | none =>
    let s : LockSlot := ⟨key, t.made⟩
    (s, { t with slots := s :: t.slots, made := t.made + 1 })

/-- A new caller that is going to take keys. -/
def enter (t : LockTable ν) (name : ν) (keys : List LockKey) : LockTable ν :=
  { t with holders := t.holders ++ [{ name := name, ahead := LockKey.schedule keys }] }

/-- A caller looks up the slot of its next key and starts to wait for it. -/
def ask (t : LockTable ν) (h : LockHolder ν) : LockTable ν :=
  match h.ahead with
  | [] => t
  | key :: keys =>
    let (s, t) := t.slot key
    let t : LockTable ν := { t with queue := t.queue ++ [(s.mutex, h.name)] }
    t.put { h with awaited := some s, ahead := keys }

/-- A caller gets the mutex that it waits for. -/
def grant (t : LockTable ν) (h : LockHolder ν) : LockTable ν :=
  let t : LockTable ν := { t with queue := t.queue.filter fun (_, waiting) => waiting ≠ h.name }
  t.put h.granted

/-- A caller gives back what it holds and stops waiting. -/
def leave (t : LockTable ν) (name : ν) : LockTable ν :=
  { t with
    holders := t.holders.filter fun h => h.name ≠ name
    queue := t.queue.filter fun (_, waiting) => waiting ≠ name }

/-! ## Progress -/

/-- The next step of a caller, if it can make one: it asks for its next key, or gets the mutex that
it waits for. -/
def progress? (t : LockTable ν) (h : LockHolder ν) : Option (LockTable ν) :=
  match h.awaited with
  | some s => if t.isNext h.name s.mutex then some (t.grant h) else none
  | none => if h.ahead.isEmpty then none else some (t.ask h)

/-- Lets a caller make up to a number of steps. -/
def advance (t : LockTable ν) (name : ν) : (steps : Nat) → LockTable ν
  | 0 => t
  | steps + 1 =>
    match (t.find? name).bind t.progress? with
    | some t => advance t name steps
    | none => t

/-- Lets the callers make all the steps they can, from the first caller on. Nobody makes a step
possible for another one here, so that one turn is enough. -/
def settle (t : LockTable ν) : LockTable ν :=
  t.holders.foldl (fun t h => t.advance h.name (2 * h.ahead.length + 1)) t

/-- A new caller asks for keys. -/
def acquire (t : LockTable ν) (name : ν) (keys : List LockKey) : LockTable ν :=
  (t.enter name keys).settle

/-- A caller leaves, and the others take what they can get. -/
def release (t : LockTable ν) (name : ν) : LockTable ν := (t.leave name).settle

/-- A caller asks for keys and leaves at once, whatever it got. -/
def attempt (t : LockTable ν) (name : ν) (keys : List LockKey) : LockTable ν :=
  (t.acquire name keys).release name

/-- The callers that hold all their keys. -/
def holding (t : LockTable ν) : List ν := (t.holders.filter (·.isDone)).map (·.name)

/-- The callers that wait for a key. -/
def waiting (t : LockTable ν) : List ν := (t.holders.filter (!·.isDone)).map (·.name)

end LockTable

end Paybook
