import Paybook.Proofs.Service.Bookings
import Paybook.Proofs.Service.Descriptions
import Paybook.Proofs.Service.Paying

/-! # When entries are settled

`Payment.settleDemands` lists what settling an entry demands. A pending entry is settled exactly if
all of it is so, and then becomes to the letter what the settlement says, while everything else
stays as it is. Pending refunds do not occur, so nothing is demanded of them. This is
`World.settles_exactly`. -/

namespace Paybook

open Program Time

/-! ## What becomes of an entry -/

theorem Entry.withNote_of_ne {description : String} (h : description ≠ "") (note : String) :
    withNote description note = description ++ (" | " ++ note) := by
  rw [withNote, if_neg (by simpa using h), String.append_assoc]

namespace Payment

/-- What a settlement puts behind the description of an entry. -/
def remark (status : Status) (notes : Option String) : String :=
  match status with
  | .completed => notes.elim "" (" | " ++ ·)
  | .failed => " | Failed: " ++ notes.getD "Reported failed by settlement callback"
  | .cancelled => " | Cancelled: " ++ notes.getD "Cancelled by settlement callback"
  | .pending => ""

/-- A settlement changes the status, puts a remark behind the description, notes the time, and sets
the reference of what it completes. -/
theorem concluded_eq {e : Entry} (hwell : e.WellFormed) (hp : e.status = .pending)
    (hdescribed : e.description ≠ "") {status : Status} (hstatus : status ≠ .pending)
    (reference notes : Option String) (now : Instant) (tag : String → String) :
    concluded e status reference notes now tag =
      { e with
        status := status
        reference := if status = .completed then some (reference.getD (tag "MANUAL")) else none
        description := e.description ++ remark status notes
        updatedAt := now
        processedAt := some now
        version := e.version + 1 } := by
  have hnone : e.reference = none := by
    have hnot := mt hwell.referenced.1 (by simp [hp])
    simpa using hnot
  cases status with
  | completed =>
    cases notes with
    | some text =>
      simp [concluded, remark, Store.bumped, Change.result, Entry.finished,
        Entry.withNote_of_ne hdescribed]
    | none => simp [concluded, remark, Store.bumped, Change.result, Entry.finished]
  | failed | cancelled =>
    simp [concluded, remark, Store.bumped, Change.result, Entry.finished, hnone,
      Entry.withNote_of_ne hdescribed, ← String.append_assoc]
  | pending => exact absurd rfl hstatus

end Payment

/-! ## The demands of settlements -/

/-- Whether the sums that an entry of a wallet is held against before it is completed are within the
range of decimals, and clocks show a date. -/
structure Store.AddsUp (s : Store) (t : Terms) (now : Instant) (e : Entry) : Prop where
  balance : e.kind = .withdrawal →
    ∃ b, Balance.ofEntries? (s.query (Wallet.holdings e.user)) = some b
  day : e.kind ∈ EntryKind.ofWallet → ∃ sum, s.Tallies t now e.user e.kind e.amount.value sum

namespace Payment

/-- What completing a pending entry demands. Payments and refunds have no daily limit. -/
def completionDemands (t : Terms) (w : World) (e : Entry) : List Demand :=
  [⟨e.kind = .withdrawal → w.store.Covers e.user e.amount, .preconditionFailed⟩,
   ⟨w.store.WithinDay t w.now e.user e.kind e.amount, .preconditionFailed⟩,
   ⟨e.kind = .payment → ∀ x ∈ w.store.entries, x.kind = .payment → x.order = e.order →
      x.status ≠ .completed, .preconditionFailed⟩]

/-- What settling an entry demands, in the order in which it is looked for. -/
def settleDemands (t : Terms) (w : World) (entry : Nat) (status : Status) : List Demand :=
  [⟨entry ≠ 0, .invalidArgument⟩,
   ⟨status ≠ .pending, .invalidArgument⟩,
   ⟨∃ e, w.store.get? entry = some e, .notFound⟩,
   ⟨∀ e, w.store.get? entry = some e → e.status = .pending, .preconditionFailed⟩,
   ⟨status = .completed → ∀ e, w.store.get? entry = some e →
      e.kind = .withdrawal → w.store.Covers e.user e.amount, .preconditionFailed⟩,
   ⟨status = .completed → ∀ e, w.store.get? entry = some e →
      w.store.WithinDay t w.now e.user e.kind e.amount, .preconditionFailed⟩,
   ⟨status = .completed → ∀ e, w.store.get? entry = some e →
      e.kind = .payment → ∀ x ∈ w.store.entries, x.kind = .payment → x.order = e.order →
      x.status ≠ .completed, .preconditionFailed⟩]

/-- Whether a call returns what a settlement makes of an entry, which has taken its place. -/
def Settles (w : World) (entry : Nat) (status : Status) (reference notes : Option String)
    (r : Outcome Entry) (w' : World) : Prop :=
  ∃ e e', w.store.get? entry = some e ∧ e.status = .pending ∧
    e' = concluded e status reference notes w.now (tagged (w.tokens w.tokensUsed)) ∧
    r = .returned e' ∧ w'.store = w.store.replace e'

variable {α : Type} {t : Terms} {w : World} {e : Entry} {ds : List Demand}
variable {Q : Outcome Entry → World → Prop} {entry : Nat} {status : Status}
variable {reference notes : Option String}

theorem heeds_requirePending {f : Unit → Program Entry}
    (h : e.status = .pending → (f ()).Heeds w Q ds) :
    (requirePending e >>= f).Heeds w Q (⟨e.status = .pending, .preconditionFailed⟩ :: ds) := by
  refine heeds_ofAttempt (fun hp => ⟨(), Entry.checkPending_eq_ok.2 hp, h hp⟩) fun hp => ?_
  rw [Entry.checkPending, if_pos (by rwa [← Entry.isFinal_eq_false, Bool.not_eq_false] at hp)]
  exact ⟨_, rfl, rfl⟩

theorem heeds_requireCompletable (hw : w.Calm) (hwell : e.WellFormed) (hkind : e.kind ≠ .refund)
    (hsums : w.store.AddsUp t w.now e) {f : Unit → Program Entry} (h : (f ()).Heeds w Q ds) :
    (requireCompletable t e >>= f).Heeds w Q (completionDemands t w e ++ ds) := by
  have hbalance := hsums.balance
  have hday := hsums.day
  unfold requireCompletable completionDemands
  cases hk : e.kind with
  | charge =>
    rw [hk] at hday
    have hday := hday (by simp [EntryKind.ofWallet])
    exact .of_met (by simp) (heeds_requireWithinDay hw hday fun _ => .of_met (by simp) h)
  | withdrawal =>
    rw [hk] at hday
    have hday := hday (by simp [EntryKind.ofWallet])
    simp only [LawfulMonad.bind_assoc]
    refine .of_iff (heeds_requireCovered hw (hbalance hk) fun _ => ?_) (by simp)
    exact heeds_requireWithinDay hw hday fun _ => .of_met (by simp) h
  | payment =>
    have hordered : e.order.isSome = true := hwell.ordered.2 (by simp [hk, EntryKind.ofOrder])
    obtain ⟨order, ho⟩ := Option.isSome_iff_exists.1 hordered
    rw [ho]
    refine .of_met (by simp) (.of_met (by simp [Store.WithinDay, Wallet.dailyLimit?]) ?_)
    exact .of_iff (heeds_none hw h) (by simp)
  | refund => exact absurd hk hkind

/-- Settling an entry heeds its demands, and puts what becomes of it in its place when they are
met. -/
theorem heeds_settle (hw : w.Calm) (hwell : w.store.WellFormed) (husual : w.store.Usual)
    (hsums : ∀ e, status = .completed → w.store.get? entry = some e → e.status = .pending →
      w.store.AddsUp t w.now e) :
    (settle t entry status reference notes).Heeds w
      (Settles w entry status (reference.bind Text.trimmed?) (notes.bind Text.trimmed?))
      (settleDemands t w entry status) := by
  refine heeds_requireId fun _ => heeds_require decide_eq_true_iff fun hstatus => ?_
  refine heeds_load hw fun e he => heeds_acquire ?_
  obtain ⟨hmem, hid⟩ := Store.get?_eq_some.1 he
  have hload : (load entry).run w = (.returned e, w) := by rw [run_load hw, he]
  refine heeds_bind_of_run hload (.of_iff (heeds_requirePending fun hp => ?_) (by simp [he]))
  have hputs : ∀ reference notes, (conclude e status reference notes).Heeds w
      (Settles w entry status reference notes) [] := by
    intro reference notes
    refine (Action.puts_conclude hw (hid ▸ he) hp hstatus reference notes).mono ?_
    rintro _ w' ⟨rfl, -, hstore⟩
    exact ⟨e, _, he, hp, rfl, rfl, hstore⟩
  cases status with
  | completed =>
    have hkind : e.kind ≠ .refund := fun hk => by
      have hnot := (husual e hmem).pending hp
      rw [hk] at hnot
      cases hnot
    rw [settleTo_completed]
    refine Heeds.congr (heeds_requireCompletable hw (hwell e hmem) hkind (hsums e rfl he hp)
      (hputs _ _)) ?_
    simp [completionDemands, he]
  | failed => exact .of_met nofun (.of_met nofun (.of_met nofun (hputs none _)))
  | cancelled => exact .of_met nofun (.of_met nofun (.of_met nofun (hputs none _)))
  | pending => exact absurd rfl hstatus

end Payment

/-- A settlement that does not return changes nothing. -/
theorem Call.Plans.eq_of_settle {t : Terms} {w w' : World} {entry : Nat} {status : Status}
    {reference notes : Option String} {a : Action} {o : Outcome Entry}
    (h : Plans t w (.settle entry status reference notes) a) (he : a.Effect w o w')
    (hnot : ∀ e, o ≠ .returned e) : w' = w := by
  cases he with
  | refused | stopped => rfl
  | instant | entrusted | settled => exact absurd rfl (hnot _)
  | declined => cases h

/-! ## Ledgers -/

/-- On every ledger an entry is settled exactly if all that its settlement demands is so, and the
call fails with the kind of the first demand that is not met otherwise. Then the entry has the new
status and, if it is completed, the trimmed reference or one of its own; what is noted stands behind
its description, and everything else about it and all other entries are as before. A settlement that
fails changes nothing. The sums that an entry of a wallet is held against before it is completed
must be within the range of decimals, and clocks must show a date. -/
theorem World.settles_exactly (t : Terms) (w : World) (es : List Event) (entry : Nat)
    (status : Status) (reference notes : Option String) :
    let v := (w.withStore .empty).after t es
    let r := (Call.settle entry status reference notes).run t v
    (∀ e, status = .completed → v.store.get? entry = some e → e.status = .pending →
      v.store.AddsUp t v.now e) →
    r.1.Obeys (Payment.settleDemands t v entry status) ∧
    (∀ e', r.1 = .returned e' → ∃ e, v.store.get? entry = some e ∧
      e' = { e with
        status := status
        reference :=
          if status = .completed then
            some ((reference.bind Text.trimmed?).getD (tagged (v.tokens v.tokensUsed) "MANUAL"))
          else none
        description := e.description ++ Payment.remark status (notes.bind Text.trimmed?)
        updatedAt := v.now
        processedAt := some v.now
        version := e.version + 1 } ∧
      r.2.store.entries = v.store.entries.map (fun x => if x.id = entry then e' else x) ∧
      r.2.store.lastId = v.store.lastId) ∧
    ((∀ e, r.1 ≠ .returned e) → r.2 = v) := by
  intro v r hsums
  have hempty := w.calm_withStore .empty
  have hcalm : v.Calm := (written_after hempty es).1
  have hwell : v.store.WellFormed := wellFormed_after hempty .empty
  have hheeds : (Payment.settle t entry status reference notes).Heeds v _ _ :=
    Payment.heeds_settle hcalm hwell (usual_after t w es) hsums
  have hobeys : r.1.Obeys (Payment.settleDemands t v entry status) := by
    refine hheeds.obeys ?_
    rintro _ w' ⟨_, e', -, -, -, rfl, -⟩
    exact ⟨e', rfl⟩
  refine ⟨hobeys, fun e' he' => ?_, fun hnot => ?_⟩
  · have hmet := hobeys.1.1 ⟨e', he'⟩
    obtain ⟨e, x, he, hp, hx, hreturned, hstore⟩ := hheeds.yields hmet
    obtain rfl : x = e' := Outcome.returned.inj (hreturned.symm.trans he')
    obtain ⟨hmem, hid⟩ := Store.get?_eq_some.1 he
    simp only [Payment.settleDemands, List.forall_mem_cons] at hmet
    have hdescribed : v.store.Described := described_after hempty .empty
    refine ⟨e, he, ?_, ?_, ?_⟩
    · rw [hx]
      exact Payment.concluded_eq (hwell e hmem) hp (hdescribed e hmem hp) hmet.2.1 _ _ _ _
    · have hxid : x.id = entry := by
        rw [hx, Entry.id_eq_of_origin (Payment.origin_concluded e _ _ _ _ _), hid]
      change ((Payment.settle t entry status reference notes).run v).2.store.entries = _
      rw [hstore, ← hxid]
      rfl
    · change ((Payment.settle t entry status reference notes).run v).2.store.lastId = _
      rw [hstore]
      rfl
  · obtain ⟨a, hplan, heffect⟩ :=
      (Call.settle entry status reference notes).effect t hcalm (payable_after t w es)
    exact hplan.eq_of_settle heffect hnot

/-- A withdrawal of forty from a wallet of a hundred is completed under a reference of its own,
since the one that is given is blank. -/
theorem World.settles_exactly_withdrawal :
    let v := ((World.opening {} 0 ⟨0, 0⟩ fun _ => 7).withStore .empty).after {}
      [.user ⟨1, "Ada"⟩, .call (.adminCredit 1 (.ofWord 100) "gift" 1),
        .call (.withdraw 1 (.ofWord 40) "12345678" "rent")]
    let r := (Call.settle 2 .completed (some " ") (some " sent ")).run {} v
    (∀ e, Status.completed = .completed → v.store.get? 2 = some e → e.status = .pending →
      v.store.AddsUp {} v.now e) ∧
    (∀ d ∈ Payment.settleDemands {} v 2 .completed, d.met) ∧
    ∃ e, r.1 = .returned e ∧ e.status = .completed ∧
      e.reference = some "MANUAL-00000000000000000000000000000007" ∧
      e.description = "Withdrawal to bank account ****5678: rent | sent" := by
  intro v r
  have hfound : ∃ e, v.store.get? 2 = some e ∧ e.user = 1 ∧ e.kind = .withdrawal ∧
      e.amount = ⟨.ofWord 40, by decide⟩ ∧ e.status = .pending ∧
      e.description = "Withdrawal to bank account ****5678: rent" :=
    ⟨(v.store.get? 2).get (by decide +kernel), by decide +kernel, by decide +kernel,
      by decide +kernel, by decide +kernel, by decide +kernel, by decide +kernel⟩
  obtain ⟨e, he, huser, hkind, hamount, hp, hdescription⟩ := hfound
  have hbalance : Balance.ofEntries? (v.store.query (Wallet.holdings 1)) =
      some ⟨.ofWord 100⟩ := by decide +kernel
  have hused : Decimal.sum? ((v.store.query (Wallet.doneWithin 1 .withdrawal
      (Zone.utc.dayAround v.now))).map fun e => e.amount.value) = some .zero := by decide +kernel
  have htotal : Decimal.zero.add? (.ofWord 40) = some (.ofWord 40) := by decide +kernel
  have hsums : ∀ e, Status.completed = .completed → v.store.get? 2 = some e →
      e.status = .pending → v.store.AddsUp {} v.now e := by
    intro e' _ he' _
    obtain rfl := Option.some.inj (he.symm.trans he')
    refine ⟨fun _ => ⟨_, huser ▸ hbalance⟩, fun _ => ?_⟩
    rw [huser, hkind, hamount]
    exact ⟨_, Zone.utc.dayAround v.now, _, by decide +kernel, hused, htotal⟩
  have hmet : ∀ d ∈ Payment.settleDemands {} v 2 .completed, d.met := by
    simp only [Payment.settleDemands, List.forall_mem_cons, he, Option.some.injEq, forall_eq',
      huser, hkind, hamount]
    refine ⟨by decide, by decide, ⟨e, rfl⟩, hp, fun _ _ => ⟨_, hbalance, by decide +kernel⟩,
      fun _ limit hlimit => ⟨_, _, hused, htotal, ?_⟩, by simp, by simp⟩
    cases hlimit
    decide +kernel
  have hreference : ((some " ").bind Text.trimmed?).getD (tagged (v.tokens v.tokensUsed) "MANUAL") =
      "MANUAL-00000000000000000000000000000007" := by decide +kernel
  have hremark : "Withdrawal to bank account ****5678: rent" ++
      Payment.remark .completed ((some " sent ").bind Text.trimmed?) =
      "Withdrawal to bank account ****5678: rent | sent" := by decide +kernel
  obtain ⟨hobeys, hbecomes, -⟩ :=
    settles_exactly {} _ _ 2 .completed (some " ") (some " sent ") hsums
  obtain ⟨e', he'⟩ := hobeys.1.2 hmet
  obtain ⟨x, hx, rfl, -⟩ := hbecomes e' he'
  obtain rfl := Option.some.inj (he.symm.trans hx)
  exact ⟨hsums, hmet, _, he', rfl, congrArg some hreference,
    (congrArg (· ++ _) hdescription).trans hremark⟩

end Paybook
