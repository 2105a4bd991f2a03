import Chronicle.Proofs.View.Rooted
/-!
# Entries

What a slot holds is an entry of its aggregate and a row of its view, and the two follow the log on
their own. An event opens the entry, amends it or closes it; aggregate and view must do the same.

* `Revision`, `Slot.revision?`: what an event does to an entry;
* `Slot.held`, `Slot.row`: the entry in the state of the aggregate, and the row that shows it;
* `Slot.Shown`: the row agrees with what is held;
* `Slot.held_hear`: the aggregate revises what it holds;
* **`Slot.Shown.fold`**: the view revises the row in the same way.
-/

namespace Chronicle

/-- What an event does to an entry. -/
inductive Revision (C : Type) where
  /-- From now on the entry is there. -/
  | opened (content : C)
  | amended (change : C → C)
  /-- The entry is gone. -/
  | closed

namespace Revision

variable {C : Type}

/-- What is held behind a revision. -/
def apply : Revision C → Option C → Option C
  | opened content, _ => some content
  | amended change, held => held.map change
  | closed, _ => none

/-- What is held behind an event, which may be about something else. -/
def after (held : Option C) : Option (Revision C) → Option C
  | none => held
  | some r => r.apply held

/-- The entry is opened. -/
def opens : Revision C → Bool
  | opened _ => true
  | _ => false

/-- Only what is there is amended or closed. -/
def Fits (r : Revision C) (held : Option C) : Prop :=
  r.opens = true ∨ held ≠ none

end Revision

/-- What happens to the policy of an owner, as a revision. -/
def SettingsEvent.revision {S C : Type} [Settings S C] : SettingsEvent S C → Revision S
  | added settings => .opened settings
  | changed change => .amended (Settings.apply change)
  | removed => .closed

/-- What an event of the policy context does to a policy of one kind. -/
def PolicyKind.revision? {S C : Type} [Settings S C] (k : PolicyKind S C) (e : PolicyEvent) :
    Option (Revision S) :=
  (k.unwrap? e).map SettingsEvent.revision

/-- What an event of the policy context does to the mail text of a key. -/
def MailText.revision? (key : MailTextKey) : PolicyEvent → Option (Revision MailTextContent)
  | .mailTextAdded k content => if k = key then some (.opened content) else none
  | .mailTextChanged k change =>
    if k = key then some (.amended (MailTextContent.apply change)) else none
  | _ => none

/-- What happens to a member, as a revision. -/
def MemberEvent.revision : MemberEvent → Revision (List String)
  | added _ roles => .opened roles
  | changed _ roles => .amended fun _ => roles
  | removed _ => .closed

/-- What an event of the member context does to the membership of a user. -/
def Members.revision? (user : String) (e : MemberEvent) : Option (Revision (List String)) :=
  if e.user = user then some e.revision else none

/-- The row of a policy that is opened by one event, where another was the last about it. -/
def Owner.row {S : Type} (owner : Owner) (settings : S) (opened last : Event) : PolicyRow S where
  id := owner.id
  sequence := last.sequence
  createdAt := opened.time
  changedAt := last.time
  owner := owner.id
  lifecycle := .active
  isDefault := owner.isDefault
  settings := settings

namespace Slot

/-- What the entry of a slot consists of. Roles are kept in order. -/
@[reducible] def Content : Slot → Type
  | lockout _ => LockoutSettings
  | orgIam _ => OrgIamSettings
  | mailText _ _ => MailTextContent
  | member _ _ => List String

/-- The entry in the state of the aggregate. -/
def held : (x : Slot) → x.subject.State → Option x.Content
  | lockout _, p => PolicyState.held (S := LockoutSettings) p
  | orgIam _, p => PolicyState.held (S := OrgIamSettings) p
  | mailText _ _, m => MailTextState.held m
  | member _ user, m => (m : MemberState).get? user

/-- The key of the row that shows a slot. -/
def key : (x : Slot) → x.subject.view.Key
  | lockout owner => owner.id
  | orgIam owner => owner.id
  | mailText iam key => (iam, key)
  | member iam user => (iam, user)

/-- The row that shows a slot, opened by one event, where another was the last about it. -/
def row : (x : Slot) → x.Content → (opened last : Event) → x.subject.view.Entry
  | lockout owner, settings, opened, last => owner.row settings opened last
  | orgIam owner, settings, opened, last => owner.row settings opened last
  | mailText iam key, content, opened, last =>
    { iam := iam, key := key, sequence := last.sequence, createdAt := opened.time,
      changedAt := last.time, owner := iam, lifecycle := .active, isDefault := true,
      content := content }
  | member iam user, roles, opened, last =>
    { iam := iam, user := user, roles := roles, sequence := last.sequence,
      createdAt := opened.time, changedAt := last.time, owner := iam }

theorem key_row (x : Slot) (content : x.Content) (opened last : Event) :
    Row.key (x.row content opened last) = x.key := by
  cases x <;> rfl

theorem sequence_row (x : Slot) (content : x.Content) (opened last : Event) :
    Row.sequence (x.row content opened last) = last.sequence := by
  cases x <;> rfl

/-! ## What events are about -/

/-- What the payload of an event says about the entry of a slot, if it is about it. -/
def read? : (x : Slot) → Event → Option (Revision x.Content)
  | lockout _, e => (PolicyEvent.codec.decode e).toOption.bind lockoutKind.revision?
  | orgIam _, e => (PolicyEvent.codec.decode e).toOption.bind orgIamKind.revision?
  | mailText _ key, e => (PolicyEvent.codec.decode e).toOption.bind (MailText.revision? key)
  | member _ user, e => (MemberEvent.codec.decode e).toOption.bind (Members.revision? user)

/-- What an event does to the entry of a slot, if it is about it. -/
def revision? (x : Slot) (e : Event) : Option (Revision x.Content) :=
  if e.stream = x.subject.stream then x.read? e else none

/-- The last event about a slot. -/
def last? (x : Slot) (es : List Event) : Option Event :=
  (es.filter fun e => (x.revision? e).isSome).getLast?

/-- The last event that opened a slot. -/
def opened? (x : Slot) (es : List Event) : Option Event :=
  (es.filter fun e => (x.revision? e).any Revision.opens).getLast?

/-- A row agrees with what is held behind some events. It is there exactly if something is held,
and then it shows what is held, since the last event that opened the slot and as of the last one
about it. -/
def Shown (x : Slot) (es : List Event) (held : Option x.Content)
    (row : Option x.subject.view.Entry) : Prop :=
  match held with
  | none => row = none
  | some content => ∃ opened last, x.opened? es = some opened ∧ x.last? es = some last ∧
      row = some (x.row content opened last)

section last

variable {x : Slot} {es : List Event} {e : Event} {r : Revision x.Content}

theorem mem_of_last? (h : x.last? es = some e) : e ∈ es ∧ (x.revision? e).isSome = true :=
  List.mem_filter.1 (List.mem_of_getLast? h)

theorem last?_concat_of_none (h : x.revision? e = none) : x.last? (es ++ [e]) = x.last? es := by
  simp [last?, List.filter_append, h]

theorem opened?_concat_of_none (h : x.revision? e = none) :
    x.opened? (es ++ [e]) = x.opened? es := by
  simp [opened?, List.filter_append, h]

theorem last?_concat (h : x.revision? e = some r) : x.last? (es ++ [e]) = some e := by
  simp [last?, List.filter_append, h]

theorem opened?_concat (h : x.revision? e = some r) :
    x.opened? (es ++ [e]) = if r.opens then some e else x.opened? es := by
  cases ho : r.opens <;> simp [opened?, List.filter_append, h, ho]

/-- An event about something else leaves a row in agreement. -/
theorem Shown.concat {held : Option x.Content} {row : Option x.subject.view.Entry}
    (h : x.Shown es held row) (he : x.revision? e = none) : x.Shown (es ++ [e]) held row := by
  unfold Shown at h ⊢
  rwa [last?_concat_of_none he, opened?_concat_of_none he]

end last

end Slot

/-! ## What the view makes of it -/

/-- An instruction does to the row under a key what a revision does to the entry. -/
def Revision.Asks {κ ρ C : Type} (key : κ) (row : C → Event → Event → ρ) (e : Event)
    (i : Instruction κ ρ) : Revision C → Prop
  | .opened content => i = .put (row content e e)
  | .amended change => ∃ missing revise, i = .revise key missing e.sequence revise ∧
      ∀ content opened last, revise (row content opened last) = row (change content) opened e
  | .closed => i = .drop key

theorem Owner.isDefault_eq (owner : Owner) : (owner.stream.kind == iamKind) = owner.isDefault := by
  have horg : (orgKind == iamKind) = false := by decide
  cases owner with
  | iam id => rfl
  | org id => exact horg

theorem PolicyRow.ofEvent_eq {S : Type} {owner : Owner} {e : Event} (h : e.stream = owner.stream)
    (settings : S) : PolicyRow.ofEvent e settings = owner.row settings e e := by
  unfold PolicyRow.ofEvent Owner.row
  rw [h, owner.isDefault_eq]
  cases owner <;> rfl

section asks

variable {e : Event}

theorem PolicyKind.exists_asks {S C : Type} [Settings S C] (k : PolicyKind S C) (view : String)
    {owner : Owner} {r : Revision S} (hs : e.stream = owner.stream)
    (h : (PolicyEvent.codec.decode e).toOption.bind k.revision? = some r) :
    ∃ i, (k.projection view).instruction e = .ok i ∧ r.Asks owner.id owner.row e i := by
  have hid : e.stream.id = owner.id := by
    rw [hs]
    cases owner <;> rfl
  rw [instruction_projection]
  unfold instruction
  cases hd : PolicyEvent.codec.decode e with
  | error err => simp [hd, Except.toOption] at h
  | ok event =>
    rw [hd] at h
    obtain ⟨fact, hu, rfl⟩ := Option.map_eq_some_iff.1 h
    simp only [hu]
    cases fact with
    | added settings => exact ⟨_, rfl, congrArg Instruction.put (PolicyRow.ofEvent_eq hs settings)⟩
    | changed change => exact ⟨_, rfl, _, _, by rw [hid], fun _ _ _ => rfl⟩
    | removed => exact ⟨_, rfl, congrArg Instruction.drop hid⟩

theorem MailText.exists_asks {iam : String} {key : MailTextKey} {r : Revision MailTextContent}
    (hs : e.stream = (Owner.iam iam).stream)
    (h : (PolicyEvent.codec.decode e).toOption.bind (revision? key) = some r) :
    ∃ i, mailTextProjection.instruction e = .ok i ∧
      r.Asks (iam, key) (Slot.mailText iam key).row e i := by
  rw [mailTextProjection_instruction]
  unfold instruction
  cases hd : PolicyEvent.codec.decode e with
  | error err => simp [hd, Except.toOption] at h
  | ok event =>
    rw [hd] at h
    cases event with
    | lockout fact => cases h
    | orgIam fact => cases h
    | mailTextAdded k content =>
      obtain ⟨rfl, hr⟩ := Option.ite_none_right_eq_some.1 h
      obtain rfl := Option.some.inj hr
      refine ⟨_, rfl, congrArg Instruction.put ?_⟩
      unfold MailTextRow.ofEvent
      rw [hs]
      rfl
    | mailTextChanged k change =>
      obtain ⟨rfl, hr⟩ := Option.ite_none_right_eq_some.1 h
      obtain rfl := Option.some.inj hr
      exact ⟨_, rfl, _, _, by rw [hs]; rfl, fun _ _ _ => rfl⟩

theorem Members.exists_asks {iam user : String} {r : Revision (List String)}
    (hs : e.stream = (Owner.iam iam).stream)
    (h : (MemberEvent.codec.decode e).toOption.bind (revision? user) = some r) :
    ∃ i, memberProjection.instruction e = .ok i ∧
      r.Asks (iam, user) (Slot.member iam user).row e i := by
  rw [memberProjection_instruction]
  unfold instruction
  cases hd : MemberEvent.codec.decode e with
  | error err => simp [hd, Except.toOption] at h
  | ok event =>
    rw [hd] at h
    obtain ⟨rfl, hr⟩ := Option.ite_none_right_eq_some.1 h
    obtain rfl := Option.some.inj hr
    cases event with
    | added u roles =>
      refine ⟨_, rfl, congrArg Instruction.put ?_⟩
      unfold MemberRow.ofEvent
      rw [hs]
      rfl
    | changed u roles => exact ⟨_, rfl, _, _, by rw [hs]; rfl, fun _ _ _ => rfl⟩
    | removed u => exact ⟨_, rfl, by rw [hs]; rfl⟩

/-- **Instructions.** What an event does to an entry is what it asks of the view. -/
theorem Slot.exists_asks {x : Slot} {r : Revision x.Content} (h : x.revision? e = some r) :
    ∃ i, x.subject.view.projection.instruction e = .ok i ∧ r.Asks x.key x.row e i := by
  obtain ⟨hs, h⟩ := Option.ite_none_right_eq_some.1 h
  cases x with
  | lockout owner => exact lockoutKind.exists_asks _ hs h
  | orgIam owner => exact orgIamKind.exists_asks _ hs h
  | mailText iam key => exact MailText.exists_asks hs h
  | member iam user => exact Members.exists_asks hs h

end asks

/-! ## What the aggregate makes of it -/

namespace Slot

/-- What a deed does to the entry of a slot on the stream of the deed. -/
def mention? : (x : Slot) → Deed → Option (Revision x.Content)
  | lockout _, .policy _ e => lockoutKind.revision? e
  | orgIam _, .policy _ e => orgIamKind.revision? e
  | mailText _ key, .policy _ e => MailText.revision? key e
  | member _ user, .member _ e => Members.revision? user e
  | _, _ => none

end Slot

namespace Deed

variable (editor : String) (now : Instant) (position sequence : Int)

/-- Neither context reads what the other has written. -/
theorem decode_foreign :
    (∀ iam e, (PolicyEvent.codec.decode
        (event (.member iam e) editor now position sequence)).toOption = none) ∧
    ∀ owner e, (MemberEvent.codec.decode
        (event (.policy owner e) editor now position sequence)).toOption = none := by
  constructor
  · intro iam e
    have hforeign : e.tag ∉ PolicyEvent.tags := MemberEvent.tags_disjoint _ e.tag_mem
    have hdecode : PolicyEvent.registry.decode e.tag e.payload = _ :=
      Registry.decode_ofTable_of_notMem hforeign
    change (PolicyEvent.registry.decode e.tag e.payload).toOption = none
    rw [hdecode]
    rfl
  · intro owner e
    have hforeign : e.tag ∉ MemberEvent.tags := fun h => MemberEvent.tags_disjoint _ h e.tag_mem
    have hdecode : MemberEvent.registry.decode e.tag e.payload = _ :=
      Registry.decode_ofTable_of_notMem hforeign
    change (MemberEvent.registry.decode e.tag e.payload).toOption = none
    rw [hdecode]
    rfl

end Deed

namespace Slot

variable {x : Slot} {d : Deed} {editor : String} {now : Instant} {position sequence : Int}

theorem read?_event (x : Slot) (d : Deed) :
    x.read? (d.event editor now position sequence) = x.mention? d := by
  cases d with
  | policy owner e =>
    have hread : (PolicyEvent.codec.decode _).toOption = some e :=
      congrArg Except.toOption (Deed.decode_policy editor now position sequence owner e)
    have hforeign := (Deed.decode_foreign editor now position sequence).2 owner e
    cases x with
    | lockout o => exact congrArg (·.bind lockoutKind.revision?) hread
    | orgIam o => exact congrArg (·.bind orgIamKind.revision?) hread
    | mailText iam key => exact congrArg (·.bind (MailText.revision? key)) hread
    | member iam user => exact congrArg (·.bind (Members.revision? user)) hforeign
  | member iam e =>
    have hread : (MemberEvent.codec.decode _).toOption = some e :=
      congrArg Except.toOption (Deed.decode_member editor now position sequence iam e)
    have hforeign := (Deed.decode_foreign editor now position sequence).1 iam e
    cases x with
    | lockout o => exact congrArg (·.bind lockoutKind.revision?) hforeign
    | orgIam o => exact congrArg (·.bind orgIamKind.revision?) hforeign
    | mailText i key => exact congrArg (·.bind (MailText.revision? key)) hforeign
    | member i user => exact congrArg (·.bind (Members.revision? user)) hread

theorem revision?_event (h : d.owner.stream = x.subject.stream) :
    x.revision? (d.event editor now position sequence) = x.mention? d :=
  (if_pos h).trans (x.read?_event d)

theorem revision?_event_of_ne (h : d.owner.stream ≠ x.subject.stream) :
    x.revision? (d.event editor now position sequence) = none :=
  if_neg h

end Slot

section held

variable {S C : Type} [Settings S C] {k : PolicyKind S C}

theorem PolicyKind.held_apply (k : PolicyKind S C) (owner : Owner) (e : PolicyEvent)
    (p : PolicyState S) :
    ((k.decider owner).apply e p).held = Revision.after p.held (k.revision? e) := by
  unfold revision? decider
  dsimp only
  cases k.unwrap? e with
  | none => rfl
  | some fact =>
    cases fact with
    | added settings => rfl
    | removed => rfl
    | changed change =>
      unfold PolicyState.held
      by_cases ha : p.lifecycle = .active <;>
        simp [PolicyState.apply, SettingsEvent.revision, Revision.after, Revision.apply, ha]

theorem MailText.held_apply (key : MailTextKey) (e : PolicyEvent) (m : MailTextState) :
    (apply key e m).held = Revision.after m.held (revision? key e) := by
  cases e with
  | lockout e => rfl
  | orgIam e => rfl
  | mailTextAdded k content =>
    by_cases hk : k = key <;>
      simp [apply, revision?, MailTextState.held, Revision.after, Revision.apply, hk]
  | mailTextChanged k change =>
    by_cases hk : k = key <;> by_cases ha : m.lifecycle = .active <;>
      simp [apply, revision?, MailTextState.held, Revision.after, Revision.apply, hk, ha]

theorem Members.get?_apply {user : String} {e : MemberEvent} {m : MemberState}
    (fits : ∀ r, revision? user e = some r → r.Fits (m.get? user)) :
    (apply e m).get? user = Revision.after (m.get? user) (revision? user e) := by
  unfold revision? at fits ⊢
  by_cases hu : e.user = user
  · subst hu
    rw [if_pos rfl] at fits ⊢
    cases e with
    | added u roles => exact Index.get?_insert_self ..
    | removed u => exact Index.get?_erase_self ..
    | changed u roles =>
      obtain ⟨held, hheld⟩ := Option.ne_none_iff_exists'.1 ((fits _ rfl).resolve_left nofun)
      change m.get? u = some held at hheld
      change (m.insert u roles).get? u = (m.get? u).map fun _ => roles
      rw [Index.get?_insert_self, hheld]
      rfl
  · rw [if_neg hu]
    have hne : user ≠ e.user := Ne.symm hu
    cases e with
    | added u roles => exact Index.get?_insert_of_ne hne ..
    | changed u roles => exact Index.get?_insert_of_ne hne ..
    | removed u => exact Index.get?_erase_of_ne hne

end held

section answer

theorem PolicyKind.revision?_answer {S C : Type} [Settings S C] (k : PolicyKind S C)
    (hu : ∀ e, k.unwrap? (k.wrap e) = some e) {owner : Owner} {r : PolicyCommand S}
    {p : PolicyState S} {fact : PolicyEvent} (h : (k.decider owner).answer r p = .ok fact) :
    ∃ revision, k.revision? fact = some revision ∧ revision.Fits p.held := by
  change (k.answer owner r p).map k.wrap = .ok fact at h
  cases ha : k.answer owner r p with
  | error err =>
    rw [ha] at h
    cases h
  | ok e =>
    rw [ha] at h
    cases h
    refine ⟨e.revision, by rw [revision?, hu]; rfl, ?_⟩
    rcases held_of_answer ha with ⟨s, rfl⟩ | hheld
    · exact .inl rfl
    · exact .inr hheld

theorem MailText.revision?_answer {iam : String} {key : MailTextKey} {r : MailTextCommand}
    {m : MailTextState} {fact : PolicyEvent} (h : answer iam key r m = .ok fact) :
    ∃ revision, revision? key fact = some revision ∧ revision.Fits m.held := by
  rcases held_of_answer h with ⟨content, rfl⟩ | ⟨⟨change, rfl⟩, hheld⟩
  · exact ⟨_, if_pos rfl, .inl rfl⟩
  · exact ⟨_, if_pos rfl, .inr hheld⟩

theorem Members.revision?_answer {iam : String} {r : MemberCommand} {m : MemberState}
    {fact : MemberEvent} (h : answer iam r m = .ok fact) :
    ∃ revision, revision? r.user fact = some revision ∧ revision.Fits (m.get? r.user) := by
  obtain ⟨huser, hheld⟩ := held_of_answer h
  refine ⟨fact.revision, if_pos huser, ?_⟩
  rcases hheld with ⟨roles, rfl⟩ | hheld
  · exact .inl rfl
  · exact .inr fun hn => hheld (by rw [MemberState.held, hn]; rfl)

end answer

namespace Slot

variable {x : Slot} {d : Deed}

/-- **Hearing.** The aggregate of a slot revises what it holds as a deed does it. -/
theorem held_hear {state : x.subject.State}
    (fits : ∀ r, x.mention? d = some r → r.Fits (x.held state)) :
    x.held (x.subject.hear d state) = Revision.after (x.held state) (x.mention? d) := by
  cases d with
  | policy owner e =>
    cases x with
    | lockout o => exact lockoutKind.held_apply o e state
    | orgIam o => exact orgIamKind.held_apply o e state
    | mailText iam key => exact MailText.held_apply key e state
    | member iam user => rfl
  | member iam e =>
    cases x with
    | member i user => exact Members.get?_apply fits
    | _ => rfl

/-! ## What answers are about -/

/-- An answer is about the slot of its command, which it opens or in which something is held. -/
theorem mention?_answer {r : x.subject.Request} {state : x.subject.State} {fact : x.subject.Fact}
    (hx : Command.slot ⟨x.subject, r⟩ = x)
    (h : x.subject.decider.answer r state = .ok fact) :
    ∃ revision, x.mention? (x.subject.deed fact) = some revision ∧
      revision.Fits (x.held state) := by
  cases x with
  | lockout owner => exact lockoutKind.revision?_answer (fun _ => rfl) h
  | orgIam owner => exact orgIamKind.revision?_answer (fun _ => rfl) h
  | mailText iam key => exact MailText.revision?_answer h
  | member iam user =>
    have hu : r.user = user := (Slot.member.inj hx).2
    have hanswer := Members.revision?_answer h
    rw [hu] at hanswer
    exact hanswer

/-- An answer is about no other slot on its stream. -/
theorem mention?_answer_of_ne {c : Command} {state : c.subject.State} {fact : c.subject.Fact}
    (h : c.subject.decider.answer c.request state = .ok fact) (hne : x ≠ c.slot)
    (hs : x.subject.stream = c.stream) : x.mention? (c.subject.deed fact) = none := by
  have own := Command.own_of_answer h
  have hid := congrArg Stream.id hs
  obtain ⟨subject, r⟩ := c
  cases subject with
  | lockout owner =>
    obtain ⟨e, rfl⟩ := own
    cases x with
    | lockout o => exact absurd (congrArg Slot.lockout (Owner.eq_of_stream_eq hs)) hne
    | _ => rfl
  | orgIam owner =>
    obtain ⟨e, rfl⟩ := own
    cases x with
    | orgIam o => exact absurd (congrArg Slot.orgIam (Owner.eq_of_stream_eq hs)) hne
    | _ => rfl
  | mailText iam key =>
    cases x with
    | mailText i k =>
      have hk : key ≠ k := by
        rintro rfl
        exact hne (congrArg (Slot.mailText · key) hid)
      rcases own with ⟨content, rfl⟩ | ⟨change, rfl⟩ <;> exact if_neg hk
    | member i user => rfl
    | _ => rcases own with ⟨content, rfl⟩ | ⟨change, rfl⟩ <;> rfl
  | members iam =>
    cases x with
    | member i user =>
      obtain rfl : i = iam := hid
      have huser : fact.user ≠ user := by
        rw [(Members.held_of_answer h).1]
        rintro rfl
        exact hne rfl
      exact if_neg huser
    | _ => rfl

end Slot

/-! ## Folds -/

namespace Projection

variable {κ ρ : Type} [SortKey κ] [Row ρ κ] {p : Projection κ ρ} {t : Table κ ρ} {e : Event}

theorem fold_put {row : ρ} (h : p.instruction e = .ok (.put row))
    (hnew : ∀ held, t.get? (Row.key row) = some held → Row.sequence held < Row.sequence row) :
    p.fold t e = .ok (t.insert (Row.key row) row) := by
  have hput : t.put row = t.insert (Row.key row) row := by
    rcases Table.put_cases t row with ⟨held, hg, hs, -⟩ | ⟨-, hp⟩
    · have := hnew held hg
      omega
    · exact hp
  simp only [fold, edit, h, Instruction.edit, Except.map, Edit.apply, hput]

theorem fold_revise {key : κ} {missing : Error} {s : Int} {change : ρ → ρ} {row : ρ}
    (h : p.instruction e = .ok (.revise key missing s change)) (hg : t.get? key = some row)
    (hs : Row.sequence row < s) (hkey : Row.key (change row) = key)
    (hseq : Row.sequence (change row) = s) :
    p.fold t e = .ok (t.insert key (change row)) := by
  have hnew : ¬s ≤ Row.sequence row := by omega
  have hput : t.put (change row) = t.insert key (change row) := by
    rcases Table.put_cases t (change row) with ⟨held, hg', hs', -⟩ | ⟨-, hp⟩
    · rw [hkey, hg] at hg'
      cases hg'
      omega
    · rwa [hkey] at hp
  simp only [fold, edit, h, Instruction.edit, hg, hnew, if_false, Except.map, Edit.apply, hput]

theorem fold_drop {key : κ} (h : p.instruction e = .ok (.drop key)) :
    p.fold t e = .ok (t.erase key) := by
  simp only [fold, edit, h, Instruction.edit, Except.map, Edit.apply, Table.drop]

end Projection

/-- **Rows.** An event that is newer than what the row of a slot shows is folded, the row goes on to
agree with what is held, and no other row is touched. -/
theorem Slot.Shown.fold {x : Slot} {es : List Event} {e : Event} {r : Revision x.Content}
    {held : Option x.Content} {t : Table x.subject.view.Key x.subject.view.Entry}
    (h : x.Shown es held (t.get? x.key)) (hr : x.revision? e = some r) (fits : r.Fits held)
    (hnew : ∀ e' ∈ es, (x.revision? e').isSome → e'.sequence < e.sequence) :
    ∃ t', x.subject.view.projection.fold t e = .ok t' ∧
      x.Shown (es ++ [e]) (r.apply held) (t'.get? x.key) ∧
      ∀ key, key ≠ x.key → t'.get? key = t.get? key := by
  obtain ⟨i, hi, hasks⟩ := exists_asks hr
  have hlast : x.last? (es ++ [e]) = some e := last?_concat hr
  have hopened : x.opened? (es ++ [e]) = _ := opened?_concat hr
  -- a row shows the last event about the slot, and that one is older
  have hreached : ∀ row, t.get? x.key = some row → Row.sequence row < e.sequence := by
    intro row hrow
    cases held with
    | none => rw [show t.get? x.key = none from h] at hrow; cases hrow
    | some content =>
      obtain ⟨opened, last, -, hl, hget⟩ := h
      cases hget.symm.trans hrow
      rw [sequence_row]
      obtain ⟨hmem, hsome⟩ := mem_of_last? hl
      exact hnew last hmem hsome
  cases r with
  | opened content =>
    have hi : x.subject.view.projection.instruction e = .ok (.put (x.row content e e)) := by
      rw [hi, show i = _ from hasks]
    refine ⟨_, Projection.fold_put hi ?_, ?_, ?_⟩
    · rw [key_row, sequence_row]
      exact hreached
    · rw [key_row, Index.get?_insert_self]
      exact ⟨e, e, hopened, hlast, rfl⟩
    · intro key hkey
      rw [key_row, Index.get?_insert_of_ne hkey]
  | amended change =>
    obtain ⟨missing, revise, rfl, hrevise⟩ := hasks
    rcases fits with hopens | hheld
    · cases hopens
    · obtain ⟨content, rfl⟩ := Option.ne_none_iff_exists'.1 hheld
      obtain ⟨opened, last, ho, hl, hget⟩ := h
      refine ⟨_, Projection.fold_revise hi hget (hreached _ hget) ?_ ?_, ?_, ?_⟩
      · rw [hrevise, key_row]
      · rw [hrevise, sequence_row]
      · rw [Index.get?_insert_self, hrevise]
        exact ⟨opened, e, hopened.trans ho, hlast, rfl⟩
      · intro key hkey
        rw [Index.get?_insert_of_ne hkey]
  | closed =>
    have hi : x.subject.view.projection.instruction e = .ok (.drop x.key) := by
      rw [hi, show i = _ from hasks]
    refine ⟨_, Projection.fold_drop hi, Index.get?_erase_self _ _, ?_⟩
    intro key hkey
    rw [Index.get?_erase_of_ne hkey]

end Chronicle
