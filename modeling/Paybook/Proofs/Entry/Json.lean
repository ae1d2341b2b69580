import Paybook.Entry.Json
import Paybook.Proofs.Decimal.Printed
import Paybook.Proofs.Json.Records
import Paybook.Proofs.Time.Written

/-! # Entries read back

An entry whose numbers fit 64 bits and whose times lie in the years 0 to 9999 reads back from its
record field by field: `Entry.parse?_render`. -/

namespace Paybook

open Text (wordLimit)
open Time

theorem Amount.ofJson?_toJson (a : Amount) : ofJson? a.toJson = some a := by
  have hsign : a.value.negative = true → a.value.magnitude ≠ 0 := by
    intro hnegative hzero
    have hpositive := a.positive
    simp [Decimal.IsPositive, Decimal.mantissa, hzero] at hpositive
  have hread : a.toJson.toDecimal? = some a.value := Decimal.parse?_toString hsign
  rw [ofJson?, hread, Option.bind_some, ofDecimal?_value]

theorem EntryKind.ofName?_name (k : EntryKind) : ofName? k.name = some k := by
  cases k <;> rfl

theorem Status.ofName?_name (s : Status) : ofName? s.name = some s := by
  cases s <;> rfl

theorem Method.ofName?_name (m : Method) : ofName? m.name = some m := by
  cases m <;> rfl

/-- A value that may be `null` reads back if it does when it is there. -/
theorem Json.nullable?_ofOption {α : Type} {f : Json → Option α} {g : α → Json} {o : Option α}
    (h : ∀ a, o = some a → g a ≠ .null ∧ f (g a) = some a) :
    nullable? f (.ofOption g o) = some o := by
  cases o with
  | none => rfl
  | some a =>
    obtain ⟨hnull, hread⟩ := h a rfl
    change nullable? f (g a) = _
    cases hg : g a <;> simp_all [nullable?]

namespace Entry

/-- Whether the numbers of an entry fit 64 bits and its times lie in the years 0 to 9999. -/
structure IsPlain (e : Entry) : Prop where
  id : e.id < wordLimit
  user : e.user < wordLimit
  order : ∀ o, e.order = some o → o < wordLimit
  createdAt : e.createdAt.IsCommon
  updatedAt : e.updatedAt.IsCommon
  processedAt : ∀ t, e.processedAt = some t → t.IsCommon
  version : e.version < wordLimit

theorem timeOfJson?_timeToJson {t : Instant} (h : t.IsCommon) :
    timeOfJson? (timeToJson t) = some t := by
  rw [timeToJson, Json.ofString, timeOfJson?, Json.toText?, Option.bind_some]
  exact Instant.parse?_toRfc3339 h

/-- The fields of the record of an entry. -/
def fields (e : Entry) : List (String × Json) :=
  fieldNames.zip
    [.ofNat e.id, .ofNat e.user, .ofOption .ofNat e.order, e.amount.toJson,
     .ofString e.kind.name, .ofString e.status.name, .ofString e.method.name,
     .ofOption .ofString e.reference, .ofString e.description, timeToJson e.createdAt,
     timeToJson e.updatedAt, .ofOption timeToJson e.processedAt, .ofNat e.version]

theorem toJson_eq (e : Entry) : e.toJson = .ofMembers e.fields := rfl

theorem names_fields (e : Entry) : e.fields.map Prod.fst = fieldNames := rfl

theorem isPlain_of_mem_fields (e : Entry) : ∀ m ∈ e.fields, m.2.IsPlain := by
  have hnat := Json.IsPlain.ofNat
  have htext := Json.IsPlain.ofString
  have htime : ∀ t, (timeToJson t).IsPlain := fun t => htext _
  have hall : ∀ v ∈ e.fields.map Prod.snd, v.IsPlain := by
    change ∀ v ∈ [_, _, _, _, _, _, _, _, _, _, _, _, _], _
    simp only [List.forall_mem_cons]
    exact ⟨hnat _, hnat _, .ofOption hnat _, htext _, htext _, htext _, htext _, .ofOption htext _,
      htext _, htime _, htime _, .ofOption htime _, hnat _, nofun⟩
  exact fun m hm => hall _ (List.mem_map_of_mem hm)

/-- A field is found under its name. -/
theorem lookup_fields (e : Entry) :
    e.fields.lookup "id" = some (.ofNat e.id) ∧ e.fields.lookup "user_id" = some (.ofNat e.user) ∧
    e.fields.lookup "order_id" = some (.ofOption .ofNat e.order) ∧
    e.fields.lookup "amount" = some e.amount.toJson ∧
    e.fields.lookup "type" = some (.ofString e.kind.name) ∧
    e.fields.lookup "status" = some (.ofString e.status.name) ∧
    e.fields.lookup "payment_method" = some (.ofString e.method.name) ∧
    e.fields.lookup "reference_id" = some (.ofOption .ofString e.reference) ∧
    e.fields.lookup "description" = some (.ofString e.description) ∧
    e.fields.lookup "created_at" = some (timeToJson e.createdAt) ∧
    e.fields.lookup "updated_at" = some (timeToJson e.updatedAt) ∧
    e.fields.lookup "processed_at" = some (.ofOption timeToJson e.processedAt) ∧
    e.fields.lookup "version" = some (.ofNat e.version) :=
  ⟨rfl, rfl, rfl, rfl, rfl, rfl, rfl, rfl, rfl, rfl, rfl, rfl, rfl⟩

/-- An entry reads back from the fields of its record. -/
theorem ofJson?_toJson {e : Entry} (h : e.IsPlain) : ofJson? e.toJson = some e := by
  have hfields : e.toJson.allFields? fieldNames = some e.fields := by
    rw [toJson_eq, ← names_fields e]
    exact Json.allFields?_ofMembers (by rw [names_fields]; decide)
  have horder : Json.nullable? Json.toWord? (.ofOption .ofNat e.order) = some e.order :=
    Json.nullable?_ofOption fun o ho => ⟨nofun, Json.toWord?_ofNat (h.order o ho)⟩
  have hreference : Json.nullable? Json.toText? (.ofOption .ofString e.reference) =
      some e.reference := Json.nullable?_ofOption fun r _ => ⟨nofun, rfl⟩
  have hprocessed : Json.nullable? timeOfJson? (.ofOption timeToJson e.processedAt) =
      some e.processedAt :=
    Json.nullable?_ofOption fun t ht => ⟨nofun, timeOfJson?_timeToJson (h.processedAt t ht)⟩
  obtain ⟨lid, luser, lorder, lamount, lkind, lstatus, lmethod, lreference, ldescription, lcreated,
    lupdated, lprocessed, lversion⟩ := e.lookup_fields
  -- The fields are read in their order, each by what undoes its writing.
  rw [ofJson?, hfields]
  refine Option.bind_eq_some_iff.2 ⟨_, rfl, ?_⟩
  refine Option.bind_eq_some_iff.2 ⟨_, Json.required?_eq_some lid (Json.toWord?_ofNat h.id), ?_⟩
  refine Option.bind_eq_some_iff.2 ⟨_, Json.required?_eq_some luser (Json.toWord?_ofNat h.user), ?_⟩
  refine Option.bind_eq_some_iff.2 ⟨_, Json.optional?_eq_some lorder horder _, ?_⟩
  refine Option.bind_eq_some_iff.2 ⟨_, Json.required?_eq_some lamount e.amount.ofJson?_toJson, ?_⟩
  refine Option.bind_eq_some_iff.2 ⟨_, Json.required?_eq_some lkind e.kind.ofName?_name, ?_⟩
  refine Option.bind_eq_some_iff.2 ⟨_, Json.required?_eq_some lstatus e.status.ofName?_name, ?_⟩
  refine Option.bind_eq_some_iff.2 ⟨_, Json.required?_eq_some lmethod e.method.ofName?_name, ?_⟩
  refine Option.bind_eq_some_iff.2 ⟨_, Json.optional?_eq_some lreference hreference _, ?_⟩
  refine Option.bind_eq_some_iff.2 ⟨_, Json.required?_eq_some ldescription rfl, ?_⟩
  refine Option.bind_eq_some_iff.2
    ⟨_, Json.required?_eq_some lcreated (timeOfJson?_timeToJson h.createdAt), ?_⟩
  refine Option.bind_eq_some_iff.2
    ⟨_, Json.required?_eq_some lupdated (timeOfJson?_timeToJson h.updatedAt), ?_⟩
  refine Option.bind_eq_some_iff.2 ⟨_, Json.optional?_eq_some lprocessed hprocessed _, ?_⟩
  exact Option.bind_eq_some_iff.2
    ⟨_, Json.required?_eq_some lversion (Json.toWord?_ofNat h.version), rfl⟩

/-- An entry reads back from its text. -/
theorem parse?_render {e : Entry} (h : e.IsPlain) : parse? e.render = some e := by
  have hne : e.fields ≠ [] := by simp [fields, fieldNames]
  have hread : Json.parse? e.render = some e.toJson :=
    Json.parse?_ofMembers hne e.isPlain_of_mem_fields
  rw [parse?, hread, Option.bind_some, ofJson?_toJson h]

/-- A refund with a text of several lines, made a nanosecond after noon on a leap day. -/
theorem parse?_render_of_leap_day :
    let e : Entry :=
      { id := 18446744073709551615, user := 1, order := some 7
        amount := ⟨{ negative := false, magnitude := 1250, scale := 3 }, by decide⟩
        kind := .refund, status := .completed, method := .card, reference := some "CARD-REFUND-1"
        description := "Refund for \"payment #1\":\nnot wanted \x01 \u2713"
        createdAt := ⟨951825600, 1⟩, updatedAt := ⟨951825600, 500000000⟩
        processedAt := some ⟨951825601, 0⟩, version := 2 }
    e.IsPlain ∧ parse? e.render = some e := by
  intro e
  have htimes : e.createdAt.IsCommon ∧ e.updatedAt.IsCommon ∧
      (⟨951825601, 0⟩ : Instant).IsCommon := by decide +kernel
  have hplain : e.IsPlain :=
    ⟨by decide, by decide, by rintro _ ⟨⟩; decide, htimes.1, htimes.2.1,
      by rintro _ ⟨⟩; exact htimes.2.2, by decide⟩
  exact ⟨hplain, parse?_render hplain⟩

end Entry

end Paybook
