import Chronicle.Index.Lemmas
import Chronicle.Policy.Event
import Chronicle.Member.Event
/-!
# Payloads are read as they were written

The two contexts write an event as a type and a payload. Read by that type, the payload gives the
event back: a change with some of its fields absent, a limit of 64 unsigned bits, a list of roles.

* `Codec.Lawful`: what is written is read back;
* `Json.lookup?_present`: a field of a record that was written without its absent fields;
* `Registry.get?_ofTable`: the reader of an event type;
* **`PolicyEvent.codec_lawful`**, **`MemberEvent.codec_lawful`**.
-/

namespace Chronicle

/-- What a codec writes it reads back. -/
structure Codec.Lawful {ε : Type} (c : Codec ε) : Prop where
  read_payload : ∀ e, c.read (c.tag e) (c.payload e) = .ok e

/-! ## Fields -/

namespace Json

theorem lookup?_eq_none {name : String} {fields : List (String × Json)}
    (h : name ∉ fields.map (·.1)) : lookup? name fields = none := by
  induction fields with
  | nil => rfl
  | cons f rest ih =>
    simp only [List.map_cons, List.mem_cons, not_or] at h
    rw [lookup?, if_neg (Ne.symm h.1), ih h.2]

/-- A field of a record is found under its name, or is absent. -/
theorem lookup?_present {name : String} {v : Option Json} {fields : List (String × Option Json)}
    (distinct : (fields.map (·.1)).Nodup) (h : (name, v) ∈ fields) :
    (present fields).field? name = v := by
  have hnames (fs : List (String × Option Json)) (n : String) (hn : n ∉ fs.map (·.1)) :
      n ∉ (fs.filterMap fun f => f.2.map fun v => (f.1, v)).map (·.1) := by
    intro hm
    obtain ⟨g, hg, rfl⟩ := List.mem_map.1 hm
    obtain ⟨f, hf, hfg⟩ := List.mem_filterMap.1 hg
    obtain ⟨w, -, rfl⟩ := Option.map_eq_some_iff.1 hfg
    exact hn (List.mem_map_of_mem hf)
  unfold present
  change lookup? name _ = v
  induction fields with
  | nil => cases h
  | cons f rest ih =>
    obtain ⟨hf, hrest⟩ := List.nodup_cons.1 distinct
    rcases List.mem_cons.1 h with rfl | h
    · cases v with
      | none => exact lookup?_eq_none (hnames rest name hf)
      | some v => rw [List.filterMap_cons, Option.map_some, lookup?, if_pos rfl]
    · have hne : f.1 ≠ name := fun hn => hf (List.mem_map.2 ⟨_, h, hn.symm⟩)
      rw [List.filterMap_cons]
      cases f.2 with
      | none => exact ih hrest h
      | some w =>
        rw [Option.map_some, lookup?, if_neg hne]
        exact ih hrest h

@[simp] theorem asUInt64?_ofNat (n : UInt64) : asUInt64? (.ofNat n.toNat) = some n := by
  have h : n.toNat ≤ Bound.uint64 := by
    have := n.toNat_lt
    unfold Bound.uint64
    omega
  change (if (0 : Int) ≤ n.toNat ∧ (n.toNat : Int) ≤ Bound.uint64
    then some (UInt64.ofNat (n.toNat : Int).toNat) else none) = some n
  rw [if_pos ⟨Int.natCast_nonneg _, Int.ofNat_le.2 h⟩, Int.toNat_natCast, UInt64.ofNat_toNat]

@[simp] theorem asStrings?_ofStrings (xs : List String) : asStrings? (.ofStrings xs) = some xs := by
  change (xs.map Json.str).mapM asString? = some xs
  induction xs with
  | nil => rfl
  | cons x xs ih =>
    rw [List.map_cons, List.mapM_cons, ih]
    rfl

@[simp] theorem optional_map_str (o : Option String) :
    optional asString? (o.map .str) = some o := by
  cases o <;> rfl

@[simp] theorem optional_map_bool (o : Option Bool) :
    optional asBool? (o.map .bool) = some o := by
  cases o <;> rfl

@[simp] theorem optional_map_ofNat (o : Option UInt64) :
    optional asUInt64? (o.map fun n => .ofNat n.toNat) = some o := by
  cases o with
  | none => rfl
  | some n =>
    change (asUInt64? (.ofNat n.toNat)).map some = some (some n)
    rw [asUInt64?_ofNat]
    rfl

end Json

/-! ## Readers by event type -/

namespace Registry

variable {ε : Type} {rows : List (String × (Json → Option ε))} {tag : String}

theorem get?_foldl_register_of_notMem {r : Registry ε} (h : tag ∉ rows.map (·.1)) :
    (rows.foldl (fun r row => register r row.1 row.2) r).get? tag = r.get? tag := by
  induction rows generalizing r with
  | nil => rfl
  | cons row rest ih =>
    simp only [List.map_cons, List.mem_cons, not_or] at h
    rw [List.foldl_cons, ih h.2, register, Index.get?_insert_of_ne h.1]

/-- The reader of an event type is the one in its row. -/
theorem get?_ofTable {reader : Json → Option ε} (distinct : (rows.map (·.1)).Nodup)
    (h : (tag, reader) ∈ rows) : (ofTable rows).get? tag = some reader := by
  unfold ofTable
  generalize (Index.empty : Registry ε) = r
  induction rows generalizing r with
  | nil => cases h
  | cons row rest ih =>
    obtain ⟨hrow, hrest⟩ := List.nodup_cons.1 distinct
    rw [List.foldl_cons]
    rcases List.mem_cons.1 h with rfl | h
    · rw [get?_foldl_register_of_notMem hrow, register, Index.get?_insert_self]
    · exact ih hrest h _

theorem decode_ofTable {reader : Json → Option ε} {payload : Json} {event : ε}
    (distinct : (rows.map (·.1)).Nodup) (h : (tag, reader) ∈ rows)
    (hr : reader payload = some event) : decode (ofTable rows) tag payload = .ok event := by
  unfold decode
  rw [get?_ofTable distinct h]
  simp only [hr]

end Registry

/-! ## Settings -/

namespace LockoutSettings

theorem read?_fields (s : LockoutSettings) : read? (.obj s.fields) = some s := by
  unfold read?
  simp [Json.components?, fieldNames, fields, Json.lookup?, Json.required, Json.asBool?]

theorem readChange?_writeChange (c : LockoutChange) : readChange? (writeChange c) = some c := by
  have ha : (writeChange c).field? "max_password_attempts"
      = c.maxAttempts.map fun n => .ofNat n.toNat :=
    Json.lookup?_present (show fieldNames.Nodup by decide) (by simp)
  have hf : (writeChange c).field? "show_failures" = c.showFailures.map .bool :=
    Json.lookup?_present (show fieldNames.Nodup by decide) (by simp)
  have hc : Json.components? fieldNames (writeChange c)
      = some (fieldNames.map fun n => (writeChange c).field? n) := rfl
  unfold readChange?
  rw [hc]
  simp [fieldNames, ha, hf]

end LockoutSettings

namespace OrgIamSettings

theorem read?_fields (s : OrgIamSettings) : read? (.obj s.fields) = some s := by
  unfold read?
  simp [Json.components?, fieldNames, fields, Json.lookup?, Json.required, Json.asBool?]

theorem readChange?_writeChange (c : OrgIamChange) : readChange? (writeChange c) = some c := by
  have hm : (writeChange c).field? "user_login_must_be_domain"
      = c.loginMustBeDomain.map .bool :=
    Json.lookup?_present (show fieldNames.Nodup by decide) (by simp)
  have hc : Json.components? fieldNames (writeChange c)
      = some (fieldNames.map fun n => (writeChange c).field? n) := rfl
  unfold readChange?
  rw [hc]
  simp [fieldNames, hm]

end OrgIamSettings

/-- Settings and their changes are read as they were written. -/
class LawfulSettings (S : Type) {C : Type} [Settings S C] : Prop where
  read?_write : ∀ s : S, Settings.read? (Settings.write s) = some s
  readChange?_writeChange : ∀ c : C, Settings.readChange? S (Settings.writeChange S c) = some c

instance : LawfulSettings LockoutSettings where
  read?_write := LockoutSettings.read?_fields
  readChange?_writeChange := LockoutSettings.readChange?_writeChange

instance : LawfulSettings OrgIamSettings where
  read?_write := OrgIamSettings.read?_fields
  readChange?_writeChange := OrgIamSettings.readChange?_writeChange

/-- An event of a policy with settings is read by the reader of its type. -/
theorem SettingsTags.exists_reader {S C ε : Type} [Settings S C] [LawfulSettings S]
    (t : SettingsTags) (wrap : SettingsEvent S C → ε) (e : SettingsEvent S C) :
    ∃ reader, (t.of e, reader) ∈ t.readers wrap ∧ reader e.write = some (wrap e) := by
  cases e with
  | added s =>
    refine ⟨_, List.mem_cons_self, ?_⟩
    change (Settings.read? (Settings.write s)).map _ = _
    rw [LawfulSettings.read?_write]
    rfl
  | changed c =>
    refine ⟨_, List.mem_cons_of_mem _ List.mem_cons_self, ?_⟩
    change (Settings.readChange? S (Settings.writeChange S c)).map _ = _
    rw [LawfulSettings.readChange?_writeChange]
    rfl
  | removed =>
    exact ⟨_, List.mem_cons_of_mem _ (List.mem_cons_of_mem _ List.mem_cons_self), rfl⟩

/-! ## Mail texts -/

namespace MailText

/-- The fields of a change of a mail text, with those that are absent. -/
def changeFields (key : MailTextKey) (c : MailTextChange) : List (String × Option Json) :=
  key.fields.map (fun f => (f.1, some f.2)) ++ c.fields

theorem readMailTextAdded?_payload (key : MailTextKey) (content : MailTextContent) :
    PolicyEvent.readMailTextAdded? (PolicyEvent.payload (.mailTextAdded key content))
      = some (.mailTextAdded key content) := by
  rfl

theorem field?_changePayload (key : MailTextKey) (c : MailTextChange) :
    ∀ f ∈ changeFields key c, (PolicyEvent.payload (.mailTextChanged key c)).field? f.1 = f.2 := by
  have hnames : ((changeFields key c).map (·.1)).Nodup := by
    change ["mail_text_type", "language", "title", "pre_header", "subject", "greeting", "text",
      "button_text"].Nodup
    decide
  intro f hf
  exact Json.lookup?_present hnames hf

theorem readMailTextChanged?_payload (key : MailTextKey) (c : MailTextChange) :
    PolicyEvent.readMailTextChanged? (PolicyEvent.payload (.mailTextChanged key c))
      = some (.mailTextChanged key c) := by
  have h := field?_changePayload key c
  simp only [changeFields, MailTextKey.fields, MailTextChange.fields, List.map_cons, List.map_nil,
    List.cons_append, List.nil_append, List.forall_mem_cons] at h
  obtain ⟨hkey, hlanguage, htitle, hpre, hsubject, hgreeting, hbody, hbutton, -⟩ := h
  unfold PolicyEvent.readMailTextChanged? MailTextKey.read? MailTextChange.read?
  rw [hkey, hlanguage, htitle, hpre, hsubject, hgreeting, hbody, hbutton]
  simp [Json.required, Json.asString?]

end MailText

/-! ## The two contexts -/

namespace PolicyEvent

/-- The event types of the policy context are distinct. -/
theorem distinct_tags :
    ((lockoutTags.readers PolicyEvent.lockout ++ orgIamTags.readers PolicyEvent.orgIam
      ++ [(mailTextAddedTag, readMailTextAdded?), (mailTextChangedTag, readMailTextChanged?)]).map
        (·.1)).Nodup := by
  change (lockoutTags.all ++ orgIamTags.all ++ mailTextTags).Nodup
  decide

/-- **Policy events** are read as they were written. -/
theorem codec_lawful : codec.Lawful where
  read_payload e := by
    cases e with
    | lockout e =>
      obtain ⟨reader, hm, hr⟩ := lockoutTags.exists_reader PolicyEvent.lockout e
      exact Registry.decode_ofTable distinct_tags
        (List.mem_append_left _ (List.mem_append_left _ hm)) hr
    | orgIam e =>
      obtain ⟨reader, hm, hr⟩ := orgIamTags.exists_reader PolicyEvent.orgIam e
      exact Registry.decode_ofTable distinct_tags
        (List.mem_append_left _ (List.mem_append_right _ hm)) hr
    | mailTextAdded key content =>
      exact Registry.decode_ofTable distinct_tags (List.mem_append_right _ List.mem_cons_self)
        (MailText.readMailTextAdded?_payload key content)
    | mailTextChanged key c =>
      exact Registry.decode_ofTable distinct_tags
        (List.mem_append_right _ (List.mem_cons_of_mem _ List.mem_cons_self))
        (MailText.readMailTextChanged?_payload key c)

end PolicyEvent

namespace MemberEvent

theorem readGrant?_writeGrant (user : String) (roles : List String) :
    readGrant? (writeGrant user roles) = some (user, roles) := by
  unfold readGrant?
  simp [writeGrant, Json.components?, Json.lookup?, Json.required, Json.asString?]

/-- **Member events** are read as they were written. -/
theorem codec_lawful : codec.Lawful where
  read_payload e := by
    have distinct : tags.Nodup := by decide
    cases e with
    | added user roles =>
      refine Registry.decode_ofTable distinct List.mem_cons_self ?_
      change (readGrant? (writeGrant user roles)).map _ = _
      rw [readGrant?_writeGrant]
      rfl
    | changed user roles =>
      refine Registry.decode_ofTable distinct (List.mem_cons_of_mem _ List.mem_cons_self) ?_
      change (readGrant? (writeGrant user roles)).map _ = _
      rw [readGrant?_writeGrant]
      rfl
    | removed user =>
      exact Registry.decode_ofTable distinct
        (List.mem_cons_of_mem _ (List.mem_cons_of_mem _ List.mem_cons_self)) rfl

end MemberEvent
end Chronicle
