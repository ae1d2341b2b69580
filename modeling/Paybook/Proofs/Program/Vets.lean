import Paybook.Proofs.Program.Requests

/-! # Checks

A check reads, and either lets a call go on or refuses it. `Program.Vets` says of a program that it
does no more than this: it fails by refusing, and otherwise only because the store does not answer,
which ends it at once. -/

namespace Paybook

/-- Whether a failure refuses what was asked for. -/
def Failure.IsRefusal (f : Failure) : Prop :=
  f.kind ∈ [FailureKind.invalidArgument, .notFound, .preconditionFailed]

namespace Failure

theorem isRefusal_invalidArgument (text : String) : (invalidArgument text).IsRefusal :=
  List.mem_cons_self

theorem isRefusal_notFound (text : String) : (notFound text).IsRefusal :=
  List.mem_cons_of_mem _ List.mem_cons_self

theorem isRefusal_preconditionFailed (text : String) : (preconditionFailed text).IsRefusal :=
  List.mem_cons_of_mem _ (List.mem_cons_of_mem _ List.mem_cons_self)

end Failure

namespace Request

/-- The reply to a call of the store that fails; other requests have none. -/
def broken? (f : Failure) : (r : Request) → Option r.Reply
  | .get _ => some (.error f)
  | .query _ => some (.error f)
  | .insert _ => some (.error f)
  | .update _ => some (.error f)
  | .lock _ | .user _ | .order _ | .findReference _ | .contains _ | .verdict _ | .clock
  | .token => none

/-- Whether a request changes nothing at all, not even what is answered next. -/
def Reads : Request → Prop
  | .lock _ | .insert _ | .update _ | .verdict _ | .token => False
  | _ => True

end Request

namespace Program

variable {α β : Type} {p : Program α}

/-- Whether a program is a check. -/
def Vets : Program α → Prop
  | done o => ∀ f, o = .failed f → f.IsRefusal
  | ask r next => r.Reads ∧ (∀ f reply, r.broken? f = some reply → next reply = fail f) ∧
      ∀ reply, (∀ f, r.broken? f ≠ some reply) → (next reply).Vets

theorem Vets.bind {f : α → Program β} (hp : p.Vets) (hf : ∀ a, (f a).Vets) : (p >>= f).Vets := by
  change (p.bind f).Vets
  induction p with
  | done o =>
    cases o with
    | returned a => exact hf a
    | failed e => rintro _ ⟨⟩; exact hp e rfl
    | overflowed => rintro _ ⟨⟩
  | ask r next ih =>
    obtain ⟨hr, hbroken, hnext⟩ := hp
    refine ⟨hr, fun f reply h => ?_, fun reply h => ih reply (hnext reply h)⟩
    change (next reply).bind _ = _
    rw [hbroken f reply h]
    rfl

/-- A check only looks. -/
theorem Vets.looks (h : p.Vets) : p.Looks := by
  induction p with
  | done o => trivial
  | ask r next ih =>
    obtain ⟨hr, hbroken, hnext⟩ := h
    refine ⟨by cases r <;> trivial, fun reply => ?_⟩
    by_cases hreply : ∃ f, r.broken? f = some reply
    · obtain ⟨f, hf⟩ := hreply
      rw [hbroken f reply hf]
      trivial
    · exact ih reply (hnext reply fun f hf => hreply ⟨f, hf⟩)

/-! ## The steps of checks -/

theorem vets_pure (a : α) : (pure a : Program α).Vets := by rintro _ ⟨⟩

theorem vets_require {c : Bool} {e : Failure} (h : e.IsRefusal) : (require c e).Vets := by
  unfold require
  split
  · exact vets_pure ()
  · rintro _ ⟨⟩
    exact h

theorem vets_ofAttempt {x : Attempt α} (h : ∀ e, x = .error e → e.IsRefusal) :
    (ofAttempt x).Vets := by
  cases x with
  | ok a => exact vets_pure a
  | error e =>
    rintro _ ⟨⟩
    exact h e rfl

theorem vets_inRange (x : Option α) : (inRange x).Vets := by cases x <;> rintro _ ⟨⟩

/-- Asking for something that cannot fail. -/
theorem vets_request {r : Request} (h : r.Reads) (hb : ∀ f, r.broken? f = none) :
    (request r).Vets := by
  refine ⟨h, fun f reply hf => ?_, fun reply _ => vets_pure reply⟩
  rw [hb f] at hf
  cases hf

theorem vets_select (sel : Selection) : (select sel).Vets := by
  refine ⟨trivial, ?_, fun reply hreply => ?_⟩
  · rintro f _ ⟨⟩
    rfl
  · cases reply with
    | ok es => exact vets_pure es
    | error f => exact absurd rfl (hreply f)

theorem vets_load (id : Nat) : (load id).Vets := by
  refine ⟨trivial, ?_, fun reply hreply => ?_⟩
  · rintro f _ ⟨⟩
    rfl
  · cases reply with
    | error f => exact absurd rfl (hreply f)
    | ok found =>
      cases found with
      | some e => exact vets_pure e
      | none =>
        rintro _ ⟨⟩
        exact Failure.isRefusal_notFound _

end Program

end Paybook
