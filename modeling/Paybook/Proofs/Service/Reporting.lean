import Paybook.Proofs.Service.Legs
import Paybook.Proofs.Service.Locality

/-! # Reports of sessions

A report has a line for each registered user, by ascending identifiers. The queries behind a line
refuse the identifier 0, but a user may be registered under it; then the first line is refused and
with it the whole report. `Session.reports_unless_zero` says that nothing else keeps a report from
being made, `Session.report_refused` shows the refusal. -/

namespace Paybook

open Program Time

/-! ## Who is registered -/

/-- The user whom an operation registers. -/
def Operation.user? : Operation → Option User
  | .user id name => some ⟨id, name⟩
  | _ => none

namespace Session

variable {s : Session} {o : Operation} {ops : List (Instant × Operation)}

theorem users_apply (s : Session) (o : Operation) :
    (s.apply o).2.world.users =
      o.user?.elim s.world.users fun u => s.world.users.register u.id u := by
  cases o with
  | user | order => rfl
  | charge | withdraw | adminCredit | adminDebit | pay | refund | settle =>
    exact (surroundings_run _ s.world).1

theorem mem_ids_apply {id : Nat} : id ∈ (s.apply o).2.world.users.ids ↔
    id ∈ s.world.users.ids ∨ ∃ name, o = .user id name := by
  rw [users_apply]
  cases o with
  | user id' name =>
    change id ∈ (Directory.put id' _ _).map Prod.fst ↔ _
    rw [Directory.mem_put, or_comm]
    simp [Directory.ids, eq_comm]
  | order | charge | withdraw | adminCredit | adminDebit | pay | refund | settle =>
    simp [Operation.user?]

/-- The users of a session are those whom its operations have registered. -/
theorem mem_ids_after {id : Nat} : id ∈ (s.after ops).world.users.ids ↔
    id ∈ s.world.users.ids ∨ ∃ now name, (now, .user id name) ∈ ops := by
  induction ops generalizing s with
  | nil => simp [after]
  | cons op ops ih =>
    obtain ⟨now, o⟩ := op
    let s₁ : Session := { s with world := s.world.atTime now }
    have hfirst : id ∈ (s₁.apply o).2.world.users.ids ↔
        id ∈ s.world.users.ids ∨ ∃ name, o = .user id name := mem_ids_apply
    refine (ih (s := (s₁.apply o).2)).trans ?_
    rw [hfirst, or_assoc]
    refine or_congr Iff.rfl ?_
    simp only [List.mem_cons, Prod.mk.injEq]
    constructor
    · rintro (⟨name, rfl⟩ | ⟨now', name, hmem⟩)
      · exact ⟨now, name, .inl ⟨rfl, rfl⟩⟩
      · exact ⟨now', name, .inr hmem⟩
    · rintro ⟨now', name, ⟨-, rfl⟩ | hmem⟩
      · exact .inl ⟨name, rfl⟩
      · exact .inr ⟨now', name, hmem⟩

theorem ids_ascending_after (h : s.world.users.ids.Pairwise (· < ·)) :
    (s.after ops).world.users.ids.Pairwise (· < ·) := by
  induction ops generalizing s with
  | nil => exact h
  | cons op ops ih =>
    obtain ⟨now, o⟩ := op
    refine ih (s := ({ s with world := s.world.atTime now } : Session).apply o |>.2) ?_
    rw [users_apply]
    cases o with
    | user => exact Directory.pairwise_put h
    | order | charge | withdraw | adminCredit | adminDebit | pay | refund | settle => exact h

end Session

/-! ## Lines -/

/-- Whether the balance and the history of a user have sums within the range of decimals. -/
structure Store.Summed (s : Store) (user : Nat) : Prop where
  balance : ∃ b, Balance.ofEntries? (s.query (Wallet.holdings user)) = some b
  history : ∃ m, OrderSummary.of? (History.newestFirst (s.query { user := some user })) = some m

namespace Session

variable {w : World} {user : Nat}

theorem run_line (hw : w.Calm) (huser : user ≠ 0) (h : w.store.Summed user) :
    ∃ l : ReportLine, (line user).run w = (.returned l, w) ∧ l.user = user := by
  obtain ⟨⟨b, hb⟩, m, hm⟩ := h
  have hbalance : (Wallet.balance user).run w = (.returned b, w) := by
    rw [Wallet.balance, run_bind_of_run (run_requireId huser "User"), run_holds hw, hb]
    rfl
  have hsummary : (History.orderSummary user).run w = (.returned m, w) := by
    rw [History.orderSummary, run_bind_of_run (History.run_ofUser hw huser), hm]
    rfl
  refine ⟨.ofSummary user b m, ?_, rfl⟩
  exact (run_bind_of_run hbalance).trans (run_bind_of_run hsummary)

/-- Users who may be asked about have a line each. -/
theorem run_lines (hw : w.Calm) {users : List Nat}
    (h : ∀ user ∈ users, user ≠ 0 ∧ w.store.Summed user) :
    ∃ ls : List ReportLine, (lines users).run w = (.returned ls, w) ∧
      ls.map ReportLine.user = users := by
  induction users with
  | nil => exact ⟨[], rfl, rfl⟩
  | cons user users ih =>
    obtain ⟨⟨huser, hsummed⟩, hrest⟩ := List.forall_mem_cons.1 h
    obtain ⟨l, hl, hid⟩ := run_line hw huser hsummed
    obtain ⟨ls, hls, hids⟩ := ih hrest
    refine ⟨l :: ls, (run_bind_of_run hl).trans (run_bind_of_run hls), ?_⟩
    rw [List.map_cons, hid, hids]

/-- Nobody is told anything once 0 is asked about. -/
theorem run_lines_zero (w : World) (users : List Nat) : ((lines (0 :: users)).run w).1 =
    .failed (.invalidArgument "User id must be positive") := rfl

/-- The least identifier of an ascending list is its first one. -/
theorem exists_cons_of_zero_mem {ids : List Nat} (h : ids.Pairwise (· < ·)) (hzero : 0 ∈ ids) :
    ∃ rest, ids = 0 :: rest := by
  cases ids with
  | nil => cases hzero
  | cons id rest =>
    rcases List.mem_cons.1 hzero with rfl | hmem
    · exact ⟨rest, rfl⟩
    · exact absurd ((List.pairwise_cons.1 h).1 0 hmem) (Nat.not_lt_zero id)

/-- No troubles wait for the store of a session. -/
theorem calm_after (settings : Settings) (spareSeed admin : Nat) (zone : Zone) (now : Instant)
    (tokens : Nat → Token) (ops : List (Instant × Operation)) :
    ((opening settings spareSeed admin zone now tokens).after ops).world.Calm := by
  have hopening : (opening settings spareSeed admin zone now tokens).world.Calm := rfl
  obtain ⟨es, -, hafter⟩ := after_eq_after (opening settings spareSeed admin zone now tokens) ops
  rw [hafter]
  exact (World.written_after hopening es).1

/-- Whatever operations a session was given and however they ended, its users are those whom they
have registered, in ascending order. While the sums of these users are within the range of decimals,
the report has one line for each of them, unless one is registered under 0: then there is no
report. -/
theorem reports_unless_zero (settings : Settings) (spareSeed admin : Nat) (zone : Zone)
    (now : Instant) (tokens : Nat → Token) (ops : List (Instant × Operation)) :
    let v := (opening settings spareSeed admin zone now tokens).after ops
    (∀ user ∈ v.world.users.ids, v.world.store.Summed user) →
    (∀ id, id ∈ v.world.users.ids ↔ ∃ now name, (now, .user id name) ∈ ops) ∧
    v.world.users.ids.Pairwise (· < ·) ∧
    ((∀ now name, (now, .user 0 name) ∉ ops) →
      ∃ ls, v.report = .returned ls ∧ ls.map ReportLine.user = v.world.users.ids) ∧
    ((∃ now name, (now, .user 0 name) ∈ ops) →
      v.report = .failed (.invalidArgument "User id must be positive")) := by
  intro v hsummed
  have hcalm : v.world.Calm := calm_after settings spareSeed admin zone now tokens ops
  have hids : ∀ id, id ∈ v.world.users.ids ↔ ∃ now name, (now, .user id name) ∈ ops := fun id =>
    mem_ids_after.trans (or_iff_right List.not_mem_nil)
  have hascending : v.world.users.ids.Pairwise (· < ·) := ids_ascending_after .nil
  refine ⟨hids, hascending, fun hzero => ?_, fun hzero => ?_⟩
  · have hnone : 0 ∉ v.world.users.ids := fun h => by
      obtain ⟨now, name, hmem⟩ := (hids 0).1 h
      exact hzero now name hmem
    have hfine : ∀ user ∈ v.world.users.ids, user ≠ 0 ∧ v.world.store.Summed user :=
      fun user huser => ⟨fun h => hnone (h ▸ huser), hsummed user huser⟩
    obtain ⟨ls, hls, hlines⟩ := run_lines hcalm hfine
    exact ⟨ls, congrArg Prod.fst hls, hlines⟩
  · obtain ⟨rest, hrest⟩ := exists_cons_of_zero_mem hascending ((hids 0).2 hzero)
    rw [report, hrest]
    exact run_lines_zero v.world rest

/-- Ada, who was credited ten, has a line, and so has Bob, for whom nothing was booked. -/
theorem reports_unless_zero_of_idle :
    let ops : List (Instant × Operation) := [(⟨0, 0⟩, .user 2 "Bob"), (⟨0, 0⟩, .user 1 "Ada"),
      (⟨0, 0⟩, .adminCredit 1 (.ofWord 10) "gift")]
    let v := (opening {} 0 1 .utc ⟨0, 0⟩ fun _ => 0).after ops
    (∀ user ∈ v.world.users.ids, v.world.store.Summed user) ∧
    ∃ ls, v.report = .returned ls ∧ ls.map ReportLine.user = [1, 2] := by
  intro ops v
  have hids : v.world.users.ids = [1, 2] := by decide +kernel
  have hsummed : ∀ user ∈ v.world.users.ids, v.world.store.Summed user := by
    rw [hids]
    simp only [List.forall_mem_cons]
    refine ⟨⟨Option.isSome_iff_exists.1 ?_, Option.isSome_iff_exists.1 ?_⟩,
      ⟨Option.isSome_iff_exists.1 ?_, Option.isSome_iff_exists.1 ?_⟩, nofun⟩ <;> decide +kernel
  obtain ⟨-, -, hreport, -⟩ := reports_unless_zero {} 0 1 .utc ⟨0, 0⟩ (fun _ => 0) ops hsummed
  rw [← hids]
  exact ⟨hsummed, hreport (by simp [ops])⟩

/-- A table that registers one user under 0 and Ada under 1. Both registrations succeed, and then
there is no report of Ada either. -/
theorem report_refused :
    let ops : List Operation := [.user 0 "Zero", .user 1 "Ada"]
    let v := (opening {} 0 1 .utc ⟨0, 0⟩ fun _ => 0).after (ops.map fun o => (⟨0, 0⟩, o))
    Operation.ofTable "op,user,note\nuser,0,Zero\nuser,1,Ada\n".toUTF8.toList = ops.map .ok ∧
      v.world.users.ids = [0, 1] ∧ v.world.store.entries = [] ∧
      v.report = .failed (.invalidArgument "User id must be positive") := by
  refine ⟨?_, ?_, ?_, ?_⟩ <;> decide +kernel

end Session

end Paybook
