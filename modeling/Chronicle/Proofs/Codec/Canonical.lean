import Chronicle.Proofs.Codec.Schema
/-!
# Payloads have one written form

A payload may come in several forms: with fields that nobody reads, with `null` for a field that is
kept, as an array. Whatever a context reads it writes back as one object without repeated names, and
this form is read and written back as it is.

* `Registry.exists_row_of_decode`: what is read is read by the row of its event type;
* `PolicyEvent.tag_of_decode`, `MemberEvent.tag_of_decode`: an event has the type it was read as;
* `Json.Record`: objects without repeated names;
* `Registry.RoundTrips`, **`payloads_round_trip`**.
-/

namespace Chronicle

/-! ## What was read has the type it was read as -/

namespace Registry

variable {ε : Type} {rows : List (String × (Json → Option ε))} {tag : String} {v : Json} {e : ε}

theorem mem_of_get?_foldl_register {r : Registry ε} {reader : Json → Option ε}
    (h : (rows.foldl (fun r row => register r row.1 row.2) r).get? tag = some reader) :
    (tag, reader) ∈ rows ∨ r.get? tag = some reader := by
  induction rows generalizing r with
  | nil => exact .inr h
  | cons row rest ih =>
    rcases ih h with hrest | hr
    · exact .inl (List.mem_cons_of_mem _ hrest)
    · by_cases hrow : tag = row.1
      · subst hrow
        have hself : (register r row.1 row.2).get? row.1 = some row.2 := Index.get?_insert_self ..
        cases hself.symm.trans hr
        exact .inl List.mem_cons_self
      · exact .inr ((Index.get?_insert_of_ne hrow).symm.trans hr)

/-- What a table reads is read by a row with its event type. -/
theorem exists_row_of_decode (h : decode (ofTable rows) tag v = .ok e) :
    ∃ reader, (tag, reader) ∈ rows ∧ reader v = some e := by
  unfold decode at h
  cases hg : (ofTable rows).get? tag with
  | none =>
    rw [hg] at h
    cases h
  | some reader =>
    rw [hg] at h
    dsimp only at h
    refine ⟨reader, (mem_of_get?_foldl_register hg).resolve_right (by simp), ?_⟩
    cases hr : reader v with
    | none => simp [hr] at h
    | some e' => simpa [hr] using h

end Registry

theorem SettingsTags.exists_event {S C ε : Type} [Settings S C] {t : SettingsTags}
    {wrap : SettingsEvent S C → ε} {tag : String} {reader : Json → Option ε} {v : Json} {e : ε}
    (hm : (tag, reader) ∈ t.readers wrap) (hr : reader v = some e) :
    ∃ s, e = wrap s ∧ t.of s = tag := by
  simp only [readers, List.mem_cons, Prod.mk.injEq, List.not_mem_nil, or_false] at hm
  rcases hm with ⟨rfl, rfl⟩ | ⟨rfl, rfl⟩ | ⟨rfl, rfl⟩ <;>
    obtain ⟨a, -, rfl⟩ := Option.map_eq_some_iff.1 hr
  · exact ⟨_, rfl, rfl⟩
  · exact ⟨_, rfl, rfl⟩
  · exact ⟨_, rfl, rfl⟩

namespace PolicyEvent

theorem exists_mailTextAdded {v : Json} {e : PolicyEvent} (h : readMailTextAdded? v = some e) :
    ∃ key content, e = .mailTextAdded key content := by
  simp only [readMailTextAdded?, Option.bind_eq_bind, Option.bind_eq_some_iff,
    Option.some.injEq] at h
  obtain ⟨key, -, content, -, rfl⟩ := h
  exact ⟨key, content, rfl⟩

theorem exists_mailTextChanged {v : Json} {e : PolicyEvent} (h : readMailTextChanged? v = some e) :
    ∃ key change, e = .mailTextChanged key change := by
  simp only [readMailTextChanged?, Option.bind_eq_bind, Option.bind_eq_some_iff,
    Option.some.injEq] at h
  obtain ⟨key, -, change, -, rfl⟩ := h
  exact ⟨key, change, rfl⟩

/-- A policy event has the type it was read as. -/
theorem tag_of_decode {t : String} {v : Json} {e : PolicyEvent}
    (h : registry.decode t v = .ok e) : e.tag = t := by
  obtain ⟨reader, hm, hr⟩ := Registry.exists_row_of_decode h
  rcases List.mem_append.1 hm with hm | hm
  · rcases List.mem_append.1 hm with hm | hm
    · obtain ⟨s, rfl, hs⟩ := SettingsTags.exists_event hm hr
      exact hs
    · obtain ⟨s, rfl, hs⟩ := SettingsTags.exists_event hm hr
      exact hs
  · simp only [List.mem_cons, Prod.mk.injEq, List.not_mem_nil, or_false] at hm
    rcases hm with ⟨rfl, rfl⟩ | ⟨rfl, rfl⟩
    · obtain ⟨key, content, rfl⟩ := exists_mailTextAdded hr
      rfl
    · obtain ⟨key, change, rfl⟩ := exists_mailTextChanged hr
      rfl

end PolicyEvent

/-- A member event has the type it was read as. -/
theorem MemberEvent.tag_of_decode {t : String} {v : Json} {e : MemberEvent}
    (h : registry.decode t v = .ok e) : e.tag = t := by
  obtain ⟨reader, hm, hr⟩ := Registry.exists_row_of_decode h
  simp only [List.mem_cons, Prod.mk.injEq, List.not_mem_nil, or_false] at hm
  rcases hm with ⟨rfl, rfl⟩ | ⟨rfl, rfl⟩ | ⟨rfl, rfl⟩ <;>
    obtain ⟨a, -, rfl⟩ := Option.map_eq_some_iff.1 hr <;> rfl

/-! ## The written form -/

namespace Json

/-- The value is an object without repeated names. -/
def Record (v : Json) : Prop :=
  ∃ fields, v = .obj fields ∧ (fields.map (·.1)).Nodup

theorem record_present {fields : List (String × Option Json)}
    (distinct : (fields.map (·.1)).Nodup) : (present fields).Record := by
  refine ⟨_, rfl, distinct.sublist ?_⟩
  induction fields with
  | nil => exact .slnil
  | cons f rest ih =>
    have hrest := ih (List.nodup_cons.1 distinct).2
    rw [List.filterMap_cons]
    cases f.2 with
    | none => exact hrest.cons f.1
    | some v => exact hrest.cons_cons f.1

end Json

/-- What the policy context writes is an object. -/
theorem PolicyEvent.record_payload (e : PolicyEvent) : e.payload.Record := by
  cases e with
  | lockout e =>
    cases e with
    | added s => exact ⟨_, rfl, show LockoutSettings.fieldNames.Nodup by decide⟩
    | changed c => exact Json.record_present (show LockoutSettings.fieldNames.Nodup by decide)
    | removed => exact ⟨_, rfl, .nil⟩
  | orgIam e =>
    cases e with
    | added s => exact ⟨_, rfl, show OrgIamSettings.fieldNames.Nodup by decide⟩
    | changed c => exact Json.record_present (show OrgIamSettings.fieldNames.Nodup by decide)
    | removed => exact ⟨_, rfl, .nil⟩
  | mailTextAdded key content =>
    refine ⟨_, rfl, ?_⟩
    change ["mail_text_type", "language", "title", "pre_header", "subject", "greeting", "text",
      "button_text"].Nodup
    decide
  | mailTextChanged key change =>
    refine Json.record_present ?_
    change ["mail_text_type", "language", "title", "pre_header", "subject", "greeting", "text",
      "button_text"].Nodup
    decide

/-- What the member context writes is an object. -/
theorem MemberEvent.record_payload (e : MemberEvent) : e.payload.Record := by
  cases e with
  | added user roles => exact ⟨_, rfl, show ["user_id", "roles"].Nodup by decide⟩
  | changed user roles => exact ⟨_, rfl, show ["user_id", "roles"].Nodup by decide⟩
  | removed user => exact ⟨_, rfl, show ["user_id"].Nodup by decide⟩

/-! ## Round trips -/

/-- Events that are written as a type and a payload are read back by a registry. Whatever it reads
has the type it was read as, and what is written of it is an object that is read as the same event
and written back as it is. -/
structure Registry.RoundTrips {ε : Type} (r : Registry ε) (tag : ε → String)
    (payload : ε → Json) : Prop where
  decode_payload : ∀ e, r.decode (tag e) (payload e) = .ok e
  canonical : ∀ t v e, r.decode t v = .ok e →
    tag e = t ∧ (payload e).Record ∧ r.decode t (payload e) = .ok e ∧
      (r.decode t (payload e)).map payload = .ok (payload e)

/-- A lawful codec whose events keep their type is canonical. -/
theorem Codec.Lawful.roundTrips {ε : Type} {r : Registry ε} {tag : ε → String}
    {payload : ε → Json} (h : Codec.Lawful ⟨r.decode, tag, payload⟩)
    (kept : ∀ {t v e}, r.decode t v = .ok e → tag e = t) (record : ∀ e, (payload e).Record) :
    r.RoundTrips tag payload := by
  refine ⟨h.read_payload, ?_⟩
  rintro t v e he
  obtain rfl := kept he
  have hread : r.decode (tag e) (payload e) = .ok e := h.read_payload e
  exact ⟨rfl, record e, hread, by rw [hread]; rfl⟩

/-- **Round trips.** Both contexts read back what they write, and whatever either reads has one
written form. -/
theorem payloads_round_trip :
    PolicyEvent.registry.RoundTrips PolicyEvent.tag PolicyEvent.payload ∧
      MemberEvent.registry.RoundTrips MemberEvent.tag MemberEvent.payload :=
  ⟨PolicyEvent.codec_lawful.roundTrips PolicyEvent.tag_of_decode PolicyEvent.record_payload,
    MemberEvent.codec_lawful.roundTrips MemberEvent.tag_of_decode MemberEvent.record_payload⟩

/-- A change is also read from an array, which may end early. -/
example : LockoutSettings.readChange? (.arr [.int 5]) = some ⟨some 5, none⟩ := rfl

end Chronicle
