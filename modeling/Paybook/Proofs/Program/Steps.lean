import Paybook.Proofs.Program.Secures

/-! # Shared steps under locks

How the steps that the services share secure what follows them: taking locks, booking an entry and
bringing it to its end. An entry is written under its own keys, so that for the entries under the
other keys that are held it is as if somebody else had written it. -/

namespace Paybook

open Time

/-- The keys that are held besides some others. -/
abbrev besides (held keys : List LockKey) : List LockKey := held.filter fun k => k ∉ keys

namespace Store

variable {held : List LockKey} {s s' : Store} {d : Draft} {e : Entry}

theorem Aside.mono {held' : List LockKey} (h : s.Aside held s') (hs : ∀ k ∈ held', k ∈ held) :
    s.Aside held' s' := ⟨h.grows, fun k hk => h.under k (hs k hk)⟩

theorem Aside.besides (h : s.Aside held s') (keys : List LockKey) :
    s.Aside (besides held keys) s' := h.mono fun _ hk => (List.mem_filter.1 hk).1

/-- What is known after the entry of a draft was booked: it is stored as it was made, and neither
the entries under other keys nor what is completed have changed. -/
structure Booked (held : List LockKey) (d : Draft) (s : Store) (e : Entry) (s' : Store) : Prop where
  stored : s'.get? e.id = some e
  made : ∃ id now, e = .ofDraft id d now
  aside : s.Aside (Paybook.besides held d.keys) s'
  completed : ∀ sel : Selection, sel.status = some .completed → (∃ k ∈ held, sel.Pins k) →
    s'.query sel = s.query sel

namespace Booked

theorem pending (h : s.Booked held d e s') : e.status = .pending := by
  obtain ⟨id, now, rfl⟩ := h.made
  rfl

theorem keys (h : s.Booked held d e s') : e.keys = d.keys := by
  obtain ⟨id, now, rfl⟩ := h.made
  rfl

theorem follows (h : s.Booked held d e s') : s'.Follows e := ⟨e, h.stored, h.pending, rfl, rfl⟩

theorem admits (h : s.Booked held d e s') (hk : ∀ k ∈ e.keys, k ∈ held) (ha : s.Admits e) :
    s'.Admits e :=
  ha.of_queries fun sel hsel ⟨k, hk', hp⟩ => h.completed sel hsel ⟨k, hk k hk', hp⟩

end Booked

end Store

/-- The conditions under which an entry may be completed are those of its kind. -/
theorem Store.admits_of_charge {s : Store} {e : Entry} (h : e.kind = .charge) : s.Admits e :=
  ⟨by simp [h, EntryKind.ofOrder], by simp [h]⟩

theorem Store.admits_of_withdrawal {s : Store} {e : Entry} (h : e.kind = .withdrawal)
    (hc : s.Covers e.user e.amount) : s.Admits e :=
  ⟨by simp [h, EntryKind.ofOrder], fun _ => hc⟩

theorem Store.admits_of_order {s : Store} {e : Entry} {o : Nat} (h : e.kind ∈ EntryKind.ofOrder)
    (ho : e.order = some o) (hq : s.query (Payment.doneFor o e.kind) = []) : s.Admits e := by
  refine ⟨fun _ o' ho' => ?_, fun hk => ?_⟩
  · rw [ho] at ho'
    exact Option.some.inj ho' ▸ hq
  · rw [hk] at h
    simp [EntryKind.ofOrder] at h

namespace Program

variable {α : Type} {held : List LockKey} {s : Store} {post : Post α}

/-! ## Locks -/

theorem secures_takeLocks {keys : List LockKey} {post : Post Unit}
    (h : ∀ held' s', s.Grows s' → (∀ k ∈ keys, k ∈ held') → (∀ k ∈ held, k ∈ held') →
      post held' (.returned ()) s') : (takeLocks keys).Secures held post s := by
  induction keys generalizing held s with
  | nil => exact fun s' ha => h held s' ha.grows (fun _ hk => by cases hk) fun _ hk => hk
  | cons key keys ih =>
    intro s₁ ha₁
    refine ih fun held' s' hg hkeys hheld => h held' s' (ha₁.grows.trans hg) ?_ ?_
    · intro k hk
      rcases List.mem_cons.1 hk with rfl | hk
      · exact hheld k List.mem_cons_self
      · exact hkeys k hk
    · exact fun k hk => hheld k (List.mem_cons_of_mem _ hk)

/-- Once locks are acquired all their keys are held. What was known before may have changed. -/
theorem secures_acquire {keys : List LockKey} {f : Unit → Program α}
    (h : ∀ held' s', s.Grows s' → (∀ k ∈ keys, k ∈ held') → (f ()).Secures held' post s') :
    (acquire keys >>= f).Secures held post s :=
  secures_bind <| secures_takeLocks fun held' s' hg hkeys _ =>
    h held' s' hg fun k hk => hkeys k (LockKey.mem_schedule.2 hk)

/-! ## Writes -/

theorem secures_book {d : Draft} {post : Post Entry} (hk : ∀ k ∈ d.keys, k ∈ held)
    (hb : d.kind = .refund → ∀ id now, s.Backs (.ofDraft id d now))
    (h : ∀ e s', s.Booked held d e s' → post held (.returned e) s') :
    (book d).Secures held post s := by
  intro s₁ ha₁
  refine ⟨hk, fun now => ?_⟩
  have hback : d.kind = .refund → s₁.Backs (s₁.upcoming d now) :=
    fun hr => (hb hr _ _).mono ha₁.grows
  refine ⟨hback, fun s₂ ha₂ => h _ s₂ ⟨?_, ⟨_, now, rfl⟩, ?_, ?_⟩⟩
  · refine Store.get?_eq_of_under (ha₂.under _ (hk _ List.mem_cons_self)) (Entry.user_mem_keys _) ?_
    rw [Store.get?_insert]
    exact if_pos rfl
  · refine ((ha₁.besides d.keys).trans ⟨(Store.Writes.insert d now hback).grows, ?_⟩).trans
      (ha₂.besides d.keys)
    intro k hk'
    have hnot : k ∉ d.keys := by simpa using (List.mem_filter.1 hk').2
    exact Store.under_insert hnot now
  · rintro sel hsel ⟨k, hk', hp⟩
    rw [ha₂.query hk' hp, Store.query_insert_of_completed sel hsel, ha₁.query hk' hp]

theorem secures_update {e : Entry} {post : Post Entry} (hk : ∀ k ∈ e.keys, k ∈ held)
    (hf : s.Follows e) (ha : e.status = .completed → s.Admits e)
    (h : ∀ e' s', e'.origin = e.origin → s.Aside (besides held e.keys) s' →
      post held (.returned e') s') : (update e).Secures held post s := by
  intro s₁ ha₁
  have hf₁ := ha₁.follows hk hf
  -- What the entry needs to be completed has not changed either: its keys are held.
  refine ⟨hk, hf₁, fun hc => ha₁.admits hk (ha hc), fun s₂ ha₂ => h _ s₂ rfl ?_⟩
  have hw := hf₁.writes fun hc => ha₁.admits hk (ha hc)
  obtain ⟨old, hold, -, ho, -⟩ := hf₁
  refine ((ha₁.besides e.keys).trans ⟨hw.grows, fun k hk' => ?_⟩).trans (ha₂.besides e.keys)
  have hnot : k ∉ e.keys := by simpa using (List.mem_filter.1 hk').2
  exact Store.under_replace (e := Store.bumped e) hold ho hnot

/-- A pending entry is changed as the change says. -/
theorem secures_change {c : Change} {e : Entry} {f : Entry → Program α}
    (hp : e.status = .pending)
    (h : ∀ now s', s.Aside held s' → (f (c.result e now)).Secures held post s') :
    (change c e >>= f).Secures held post s := by
  refine secures_bind ?_
  intro s' ha now
  change Secures held (ofAttempt (c.apply e now)) _ s'
  rw [Change.apply_eq_ok.2 ⟨hp, rfl⟩]
  exact fun s'' ha' => h now s'' (ha.trans ha')

theorem secures_amend {c : Change} {e : Entry} {post : Post Entry} (hk : ∀ k ∈ e.keys, k ∈ held)
    (hp : e.status = .pending) (hf : s.Follows e) (ha : c.status? = some .completed → s.Admits e)
    (h : ∀ e' s', e'.origin = e.origin → s.Aside (besides held e.keys) s' →
      post held (.returned e') s') : (change c e >>= update).Secures held post s := by
  refine secures_change hp ?_
  intro now s₁ ha₁
  have hkeys := Entry.keys_eq_of_origin (Change.origin_result c e now)
  refine secures_update (by rwa [hkeys]) ?_ ?_ ?_
  · exact (ha₁.follows hk hf).of_origin (c.origin_result e now) (c.version_result e now)
  · intro hc
    refine (ha₁.admits hk (ha ?_)).of_origin (c.origin_result e now)
    rw [Change.status_result, hp] at hc
    cases hs : c.status? with
    | none => rw [hs] at hc; cases hc
    | some st => rw [hs] at hc; exact congrArg some hc
  · intro e' s₂ ho hs₂
    rw [hkeys] at hs₂
    exact h e' s₂ (ho.trans (c.origin_result e now)) ((ha₁.besides e.keys).trans hs₂)

theorem secures_complete {e : Entry} {reference : String} {post : Post Entry}
    (hk : ∀ k ∈ e.keys, k ∈ held) (hp : e.status = .pending) (hf : s.Follows e) (ha : s.Admits e)
    (h : ∀ e' s', e'.origin = e.origin → s.Aside (besides held e.keys) s' →
      post held (.returned e') s') : (complete e reference).Secures held post s :=
  secures_amend hk hp hf (fun _ => ha) h

theorem secures_completeFreshly {e : Entry} {word : String} {post : Post Entry}
    (hk : ∀ k ∈ e.keys, k ∈ held) (hp : e.status = .pending) (hf : s.Follows e) (ha : s.Admits e)
    (h : ∀ e' s', e'.origin = e.origin → s.Aside (besides held e.keys) s' →
      post held (.returned e') s') : (completeFreshly e word).Secures held post s := by
  intro s₁ ha₁ token
  refine secures_complete hk hp (ha₁.follows hk hf) (ha₁.admits hk ha) ?_
  intro e' s₂ ho hs₂
  exact h e' s₂ ho ((ha₁.besides e.keys).trans hs₂)

/-! ## Entries given up -/

/-- An entry whose keys are held may be given up at any time. -/
theorem secures_abandon {e : Entry} {f : Failure} {post : Post Entry} (hs : s.get? e.id = some e)
    (hk : ∀ k ∈ e.keys, k ∈ held) (hl : Post.Lenient post held s) :
    (abandon e.id f).Secures held post s := by
  have hfail : ∀ s', s.Grows s' → (fail f).Secures held post s' := fun s' hg =>
    secures_fail (hl.grows hg) f
  intro s₁ ha₁
  obtain ⟨e₁, he₁, ho₁⟩ := ha₁.grows.exists_get? hs
  simp only [Request.Allowed, Program.bind, he₁]
  change Secures held (if e₁.isFinal then fail f else _) post s₁
  -- What comes before may have failed after it finished the entry, which then stays as it is.
  split
  · exact hfail s₁ ha₁.grows
  · next hfinal =>
    have hp : e₁.status = .pending := Entry.isFinal_eq_false.1 (by simpa using hfinal)
    have hid : s₁.get? e₁.id = some e₁ := by rw [Entry.id_eq_of_origin ho₁]; exact he₁
    have hk₁ : ∀ k ∈ e₁.keys, k ∈ held := by rwa [Entry.keys_eq_of_origin ho₁]
    intro s₂ ha₂ now
    have happly : e₁.fail f.detail now = .ok ((Change.fail f.detail).result e₁ now) :=
      Change.apply_eq_ok (c := .fail f.detail).2 ⟨hp, rfl⟩
    simp only [Program.bind, happly]
    intro s₃ ha₃
    have hf : s₃.Follows ((Change.fail f.detail).result e₁ now) :=
      (ha₃.follows hk₁ (ha₂.follows hk₁ ⟨e₁, hid, hp, rfl, rfl⟩)).of_origin rfl rfl
    have hne : ¬((Change.fail f.detail).result e₁ now).status = .completed := fun hc => by cases hc
    refine ⟨hk₁, hf, fun hc => absurd hc hne, hfail _ ?_⟩
    exact ((ha₁.grows.trans ha₂.grows).trans ha₃.grows).trans
      (hf.writes fun hc => absurd hc hne).grows

/-- What goes on with a stored entry, which is given up when that fails, only has to return as it
should. -/
theorem secures_orAbandon {e : Entry} {p : Program Entry} {post : Post Entry}
    (hs : s.get? e.id = some e) (hk : ∀ k ∈ e.keys, k ∈ held) (hl : Post.Lenient post held s)
    (h : ∀ post' : Post Entry, Post.Lenient post' held s →
      (∀ held a s', post held (.returned a) s' → post' held (.returned a) s') →
      p.Secures held post' s) : (orAbandon e p).Secures held post s := by
  refine secures_onFailure (h _ (fun o s' hg ho => ?_) fun _ _ _ h => h)
  cases o with
  | returned a => exact absurd rfl (ho a)
  | overflowed => exact hl _ s' hg fun _ h => by cases h
  | failed f =>
    obtain ⟨e', he', ho'⟩ := hg.exists_get? hs
    have hid := Entry.id_eq_of_origin ho'
    change (abandon e.id f).Secures held post s'
    rw [← hid] at he' ⊢
    exact secures_abandon he' (by rwa [Entry.keys_eq_of_origin ho']) (hl.grows hg)

/-- An entry that is booked and brought to its end, or given up. -/
theorem secures_book_orAbandon {d : Draft} {f : Entry → Program Entry} {post : Post Entry}
    (hk : ∀ k ∈ d.keys, k ∈ held) (hb : d.kind = .refund → ∀ id now, s.Backs (.ofDraft id d now))
    (hl : Post.Lenient post held s)
    (h : ∀ e s' post', s.Booked held d e s' → (∀ k ∈ e.keys, k ∈ held) →
      Post.Lenient post' held s' →
      (∀ held a s'', post held (.returned a) s'' → post' held (.returned a) s'') →
      (f e).Secures held post' s') :
    (book d >>= fun e => orAbandon e (f e)).Secures held post s := by
  refine secures_bind (secures_book hk hb ?_)
  intro e s' hbooked
  have hke : ∀ k ∈ e.keys, k ∈ held := by
    rw [hbooked.keys]
    exact hk
  refine secures_orAbandon hbooked.stored hke (hl.grows hbooked.aside.grows) ?_
  intro post' hl' hpost
  exact h e s' post' hbooked hke hl' hpost

end Program

end Paybook
