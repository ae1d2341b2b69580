import Paybook.Service.Call
import Paybook.Session.Operation
import Paybook.Session.Report

/-! # Sessions

A session applies operations one after the other to a book of its own and reports on the registered
users at the end. -/

namespace Paybook

/-- A book that operations are applied to, and the administrator whose word they are given. -/
structure Session where
  terms : Terms
  admin : Nat
  world : World

namespace Session

/-- A new session. The seed of the draws of its gateways is the one of the settings, if they have
one. -/
def opening (settings : Settings) (spareSeed : Nat) (admin : Nat) (zone : Time.Zone)
    (now : Time.Instant) (tokens : Nat → Token) : Session where
  terms := { settings := settings, zone := zone }
  admin := admin
  world := World.opening settings (settings.gateway.seed.getD spareSeed) now tokens

/-- The call that an operation makes. Registrations make none. -/
def call? (s : Session) : Operation → Option Call
  | .user _ _ | .order _ => none
  | .charge user amount method description => some (.charge user amount method description)
  | .withdraw user amount account reason => some (.withdraw user amount account reason)
  | .adminCredit user amount reason => some (.adminCredit user amount reason s.admin)
  | .adminDebit user amount reason => some (.adminDebit user amount reason s.admin)
  | .pay user order method => some (.pay user order method)
  | .refund payment reason => some (.refund payment reason)
  | .settle entry status reference notes => some (.settle entry status reference notes)

/-- The world after a registration. -/
def register (s : Session) : Operation → World
  | .user id name => s.world.registerUser ⟨id, name⟩
  | .order o => s.world.registerOrder o
  | _ => s.world

/-- Applies an operation. Calls give the entry they made or changed. -/
def apply (s : Session) (o : Operation) : Outcome (Option Entry) × Session :=
  match s.call? o with
  | none => (.returned none, { s with world := s.register o })
  | some c =>
    let (outcome, world) := c.run s.terms s.world
    (match outcome with
     | .returned e => .returned (some e)
     | .failed f => .failed f
     | .overflowed => .overflowed, { s with world := world })

/-- The program of a line of the report. -/
def line (user : Nat) : Program ReportLine := do
  let balance ← Wallet.balance user
  let summary ← History.orderSummary user
  return .ofSummary user balance summary

/-- The program of the lines of some users. -/
def lines : List Nat → Program (List ReportLine)
  | [] => pure []
  | user :: users => do
    let l ← line user
    let ls ← lines users
    return l :: ls

/-- The report: a line for each registered user, by ascending identifiers. -/
def report (s : Session) : Outcome (List ReportLine) :=
  ((lines s.world.users.ids).run s.world).1

end Session

end Paybook
