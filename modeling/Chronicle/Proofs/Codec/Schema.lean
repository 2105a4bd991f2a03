import Chronicle.Proofs.Codec.Payload
/-!
# The schemas of the two contexts

The log checks payloads against the schemas of both contexts. Each accepts what its own context
writes, and neither knows the event types of the other.

* `contexts`, `EventLog.fresh`: the schemas of both contexts, and a log that checks them;
* `PolicyEvent.not_knows`, `MemberEvent.not_knows`: neither context knows the types of the other;
* `PolicyEvent.check_payload`, `MemberEvent.check_payload`.
-/

namespace Chronicle

/-- The schemas of both contexts. -/
def contexts : SchemaSet := [PolicyEvent.registry.schema, MemberEvent.registry.schema]

/-- The log without events whose payloads have to meet these schemas. -/
def EventLog.fresh : EventLog := { schemas := some contexts }

namespace Registry

variable {ε : Type} {r : Registry ε} {rows : List (String × (Json → Option ε))} {tag : String}
  {payload : Json} {e : ε}

/-- A schema knows and accepts what its registry decodes. -/
theorem schema_of_decode (h : r.decode tag payload = .ok e) :
    r.schema.knows tag = true ∧ r.schema.check tag payload = .ok () := by
  constructor
  · change r.contains tag = true
    unfold decode at h
    unfold Index.contains
    cases hr : r.get? tag with
    | none => simp [hr] at h
    | some reader => rfl
  · change (r.decode tag payload).map _ = _
    rw [h]
    rfl

theorem not_knows_ofTable (h : tag ∉ rows.map (·.1)) : (ofTable rows).schema.knows tag = false := by
  change Option.isSome ((ofTable rows).get? tag) = false
  unfold ofTable
  rw [get?_foldl_register_of_notMem h]
  rfl

/-- A registry does not read an event type that it does not have. -/
theorem decode_ofTable_of_notMem (h : tag ∉ rows.map (·.1)) :
    (ofTable rows).decode tag payload = .error (.violation (.unknownEventType tag)) := by
  unfold decode ofTable
  rw [get?_foldl_register_of_notMem h]
  rfl

end Registry

theorem SettingsTags.of_mem_all {S C : Type} (t : SettingsTags) (e : SettingsEvent S C) :
    t.of e ∈ t.all := by
  cases e <;> simp [of, all]

/-- The event types of the policy context. -/
def PolicyEvent.tags : List String := lockoutTags.all ++ orgIamTags.all ++ mailTextTags

theorem PolicyEvent.tag_mem (e : PolicyEvent) : e.tag ∈ tags := by
  unfold tags
  rw [List.mem_append, List.mem_append]
  cases e with
  | lockout e => exact .inl (.inl (lockoutTags.of_mem_all e))
  | orgIam e => exact .inl (.inr (orgIamTags.of_mem_all e))
  | mailTextAdded key content => exact .inr List.mem_cons_self
  | mailTextChanged key change => exact .inr (List.mem_cons_of_mem _ List.mem_cons_self)

theorem MemberEvent.tag_mem (e : MemberEvent) : e.tag ∈ tags := by
  cases e with
  | added user roles => exact List.mem_cons_self
  | changed user roles => exact List.mem_cons_of_mem _ List.mem_cons_self
  | removed user => exact List.mem_cons_of_mem _ (List.mem_cons_of_mem _ List.mem_cons_self)

/-- The contexts have no event type in common. -/
theorem MemberEvent.tags_disjoint : ∀ t ∈ tags, t ∉ PolicyEvent.tags := by
  decide

theorem PolicyEvent.not_knows {t : String} (h : t ∈ MemberEvent.tags) :
    registry.schema.knows t = false :=
  Registry.not_knows_ofTable (MemberEvent.tags_disjoint t h)

theorem MemberEvent.not_knows {t : String} (h : t ∈ PolicyEvent.tags) :
    registry.schema.knows t = false :=
  Registry.not_knows_ofTable fun hm => tags_disjoint t hm h

/-- The schemas accept what the policy context writes. -/
theorem PolicyEvent.check_payload (e : PolicyEvent) : contexts.check e.tag e.payload = .ok () := by
  obtain ⟨hk, hc⟩ := Registry.schema_of_decode (codec_lawful.read_payload e)
  change registry.schema.knows e.tag = true at hk
  unfold SchemaSet.check contexts
  rw [List.find?_cons, hk]
  exact hc

/-- The schemas accept what the member context writes. -/
theorem MemberEvent.check_payload (e : MemberEvent) : contexts.check e.tag e.payload = .ok () := by
  have hforeign : PolicyEvent.registry.schema.knows e.tag = false :=
    PolicyEvent.not_knows e.tag_mem
  obtain ⟨hk, hc⟩ := Registry.schema_of_decode (codec_lawful.read_payload e)
  change registry.schema.knows e.tag = true at hk
  unfold SchemaSet.check contexts
  rw [List.find?_cons, hforeign, List.find?_cons, hk]
  exact hc

end Chronicle
