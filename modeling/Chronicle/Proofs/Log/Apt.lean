import Chronicle.Proofs.View.Agreement
/-!
# What is recorded is apt

A command is decided on what its slot holds, so what it records is apt there. Nothing is added that
is there already, and defaults and mail texts are not removed. A change carries something, and only
what differs. Roles are recorded in one form, and replaced by others only. The parts of the key of a
mail text are not blank.

* `LockoutChange.Differs`, `OrgIamChange.Differs`, `MailTextChange.Differs`: what changes carry;
* `Slot.removable`, `Slot.Named`, `Slot.Sharp`: what is asked of the events about a slot;
* `Slot.Apt`, **`EventLog.Kept.land_apt`**: commands record events that are apt.
-/

namespace Chronicle

/-! ## Changes -/

theorem ne_of_differing {α : Type} [DecidableEq α] {a b v : α} (h : differing a b = some v) :
    v ≠ a := by
  unfold differing at h
  split at h
  · cases h
  · rename_i hne
    cases h
    exact Ne.symm hne

/-- The change carries a setting, and every setting that it carries differs. -/
def LockoutChange.Differs (c : LockoutChange) (s : LockoutSettings) : Prop :=
  c ≠ {} ∧ (∀ n, c.maxAttempts = some n → n ≠ s.maxAttempts) ∧
    ∀ b, c.showFailures = some b → b ≠ s.showFailures

/-- The change carries the setting, and it differs. -/
def OrgIamChange.Differs (c : OrgIamChange) (s : OrgIamSettings) : Prop :=
  c ≠ {} ∧ ∀ b, c.loginMustBeDomain = some b → b ≠ s.loginMustBeDomain

/-- The change carries a block, and every block that it carries differs. -/
def MailTextChange.Differs (c : MailTextChange) (m : MailTextContent) : Prop :=
  c ≠ {} ∧ (∀ t, c.title = some t → t ≠ m.title) ∧
    (∀ t, c.preHeader = some t → t ≠ m.preHeader) ∧ (∀ t, c.subject = some t → t ≠ m.subject) ∧
    (∀ t, c.greeting = some t → t ≠ m.greeting) ∧ (∀ t, c.body = some t → t ≠ m.body) ∧
    ∀ t, c.buttonText = some t → t ≠ m.buttonText

theorem LockoutSettings.differs_of_between {s next : LockoutSettings} {c : LockoutChange}
    (h : between s next = some c) : c.Differs s := by
  unfold between at h
  dsimp only at h
  split at h
  · cases h
  · rename_i hne
    cases h
    exact ⟨hne, fun _ => ne_of_differing, fun _ => ne_of_differing⟩

theorem OrgIamSettings.differs_of_between {s next : OrgIamSettings} {c : OrgIamChange}
    (h : between s next = some c) : c.Differs s := by
  obtain ⟨b, hb, rfl⟩ := Option.map_eq_some_iff.1 h
  refine ⟨by simp, fun b' hb' => ?_⟩
  cases hb'
  exact ne_of_differing hb

theorem MailTextContent.differs_of_between {m next : MailTextContent} {c : MailTextChange}
    (h : between m next = some c) : c.Differs m := by
  unfold between at h
  dsimp only at h
  split at h
  · cases h
  · rename_i hne
    cases h
    exact ⟨hne, fun _ => ne_of_differing, fun _ => ne_of_differing, fun _ => ne_of_differing,
      fun _ => ne_of_differing, fun _ => ne_of_differing, fun _ => ne_of_differing⟩

theorem MailTextKey.validate_eq_ok {key : MailTextKey} (h : key.validate = .ok ()) :
    Text.allBlank key.template = false ∧ Text.allBlank key.language = false := by
  unfold validate at h
  split at h
  · cases h
  · rename_i htemplate
    split at h
    · cases h
    · rename_i hlanguage
      exact ⟨Bool.eq_false_iff.2 htemplate, Bool.eq_false_iff.2 hlanguage⟩

/-! ## What is asked of events -/

namespace Slot

/-- What a slot holds can be removed: the policy of an organization, and a member. -/
def removable : Slot → Bool
  | lockout owner => !owner.isDefault
  | orgIam owner => !owner.isDefault
  | mailText _ _ => false
  | member _ _ => true

/-- The parts of the key of a mail text are not blank. -/
def Named : Slot → Prop
  | mailText _ key => Text.allBlank key.template = false ∧ Text.allBlank key.language = false
  | _ => True

/-- An event does not change more of a slot than it has to, given what the slot holds, and it gives
roles in one form. -/
def Sharp : (x : Slot) → Option x.Content → Event → Prop
  | lockout _, held, e => ∀ c, PolicyEvent.codec.decode e = .ok (.lockout (.changed c)) →
      ∃ s, held = some s ∧ c.Differs s
  | orgIam _, held, e => ∀ c, PolicyEvent.codec.decode e = .ok (.orgIam (.changed c)) →
      ∃ s, held = some s ∧ c.Differs s
  | mailText _ key, held, e =>
      ∀ c, PolicyEvent.codec.decode e = .ok (.mailTextChanged key c) →
        ∃ m, held = some m ∧ c.Differs m
  | member _ user, held, e =>
      (∀ roles, MemberEvent.codec.decode e = .ok (.added user roles) → Roles.Canonical roles) ∧
      ∀ roles, MemberEvent.codec.decode e = .ok (.changed user roles) →
        Roles.Canonical roles ∧ ∃ old, held = some old ∧ old ≠ roles

/-- An event is apt for a slot, given what the slot holds. -/
structure Apt (x : Slot) (held : Option x.Content) (e : Event) : Prop where
  opened : ∀ content, x.revision? e = some (.opened content) → held = none ∧ x.Named
  closed : x.revision? e = some .closed → x.removable = true
  /-- No policy of an instance is removed. -/
  kept : e.stream.kind = iamKind →
    e.tag ≠ PolicyEvent.lockoutTags.removed ∧ e.tag ≠ PolicyEvent.orgIamTags.removed
  sharp : x.Sharp held e

variable {x : Slot} {e : Event}

/-- What an event that is not about a slot says of it is sharp. -/
theorem sharp_of_revision?_eq_none (hs : e.stream = x.subject.stream) (h : x.revision? e = none)
    (held : Option x.Content) : x.Sharp held e := by
  rw [revision?, if_pos hs] at h
  cases x with
  | lockout owner =>
    intro c hc
    simp [read?, hc, Except.toOption, PolicyKind.revision?, lockoutKind] at h
  | orgIam owner =>
    intro c hc
    simp [read?, hc, Except.toOption, PolicyKind.revision?, orgIamKind] at h
  | mailText iam key =>
    intro c hc
    simp [read?, hc, Except.toOption, MailText.revision?] at h
  | member iam user =>
    constructor <;> intro roles hr <;>
      simp [read?, hr, Except.toOption, Members.revision?, MemberEvent.user] at h

end Slot

/-! ## Answers -/

/-- The event types of removals belong to removals. -/
theorem PolicyEvent.tag_ne_removed (e : PolicyEvent) (hl : e ≠ .lockout .removed)
    (ho : e ≠ .orgIam .removed) : e.tag ≠ lockoutTags.removed ∧ e.tag ≠ orgIamTags.removed := by
  rcases e with (_ | _ | _) | (_ | _ | _) | _ | _
  case lockout.removed => exact absurd rfl hl
  case orgIam.removed => exact absurd rfl ho
  all_goals
    simp [tag, SettingsTags.of, lockoutTags, orgIamTags, mailTextAddedTag, mailTextChangedTag]

section answer

variable {editor : String} {now : Instant} {position sequence : Int}

/-- What is recorded of a policy opens it where none is in effect, closes it for an organization only,
and changes no more than it has to. -/
theorem PolicyKind.recorded {S C : Type} [Settings S C] (k : PolicyKind S C)
    (hu : ∀ e, k.unwrap? (k.wrap e) = some e)
    (hk : ∀ e, e ≠ .removed → k.wrap e ≠ .lockout .removed ∧ k.wrap e ≠ .orgIam .removed)
    {Differs : C → S → Prop}
    (hd : ∀ {s next c}, Settings.between s next = some c → Differs c s) {owner : Owner}
    {r : PolicyCommand S} {p : PolicyState S} {fact : PolicyEvent}
    (h : (k.decider owner).answer r p = .ok fact) :
    (∀ s, k.revision? fact = some (.opened s) → p.held = none) ∧
      (k.revision? fact = some .closed → owner.isDefault = false) ∧
      (owner.stream.kind = iamKind →
        fact.tag ≠ PolicyEvent.lockoutTags.removed ∧ fact.tag ≠ PolicyEvent.orgIamTags.removed) ∧
      ∀ c, fact = k.wrap (.changed c) → ∃ s, p.held = some s ∧ Differs c s := by
  change (k.answer owner r p).map k.wrap = .ok fact at h
  cases ha : k.answer owner r p with
  | error err =>
    rw [ha] at h
    cases h
  | ok e =>
    rw [ha] at h
    cases h
    have hinj {e' : SettingsEvent S C} (he : k.wrap e = k.wrap e') : e = e' := by
      have hsome := hu e
      rw [he, hu e'] at hsome
      exact (Option.some.inj hsome).symm
    have hkept (he : e ≠ .removed) : (k.wrap e).tag ≠ PolicyEvent.lockoutTags.removed ∧
        (k.wrap e).tag ≠ PolicyEvent.orgIamTags.removed :=
      (k.wrap e).tag_ne_removed (hk e he).1 (hk e he).2
    unfold revision?
    rw [hu]
    rcases answer_cases ha with ⟨s, -, hl, rfl⟩ | ⟨next, c, -, hl, hc, rfl⟩ | ⟨-, hdef, -, rfl⟩
    · exact ⟨fun _ _ => if_neg hl, nofun, fun _ => hkept nofun, fun c hcw => nomatch hinj hcw⟩
    · refine ⟨nofun, nofun, fun _ => hkept nofun, fun c' hcw => ?_⟩
      cases hinj hcw
      exact ⟨p.settings, if_pos hl, hd hc⟩
    · refine ⟨nofun, fun _ => hdef, fun hiam => ?_, fun c hcw => nomatch hinj hcw⟩
      cases owner with
      | iam id => cases hdef
      | org id => exact absurd hiam (by decide : orgKind ≠ iamKind)

namespace Slot

theorem apt_lockout {owner : Owner} {r : PolicyCommand LockoutSettings}
    {p : PolicyState LockoutSettings} {fact : PolicyEvent}
    (h : (lockoutKind.decider owner).answer r p = .ok fact) :
    (lockout owner).Apt p.held (Deed.event (.policy owner fact) editor now position sequence) := by
  obtain ⟨hopened, hclosed, hkept, hchanged⟩ := lockoutKind.recorded (fun _ => rfl)
    (fun e he => ⟨fun hw => he (PolicyEvent.lockout.inj hw), nofun⟩)
    LockoutSettings.differs_of_between h
  obtain ⟨e, rfl⟩ := Command.own_of_answer (c := ⟨.lockout owner, r⟩) h
  have hr : (lockout owner).revision? (Deed.event (.policy owner (.lockout e)) editor now position
      sequence) = lockoutKind.revision? (.lockout e) := revision?_event rfl
  have hdecode := Deed.decode_policy editor now position sequence owner (.lockout e)
  refine ⟨fun s hs => ⟨hopened s (hr ▸ hs), trivial⟩, fun hc => ?_, hkept, fun c hc => ?_⟩
  · rw [removable, hclosed (hr ▸ hc), Bool.not_false]
  · cases hdecode.symm.trans hc
    exact hchanged c rfl

theorem apt_orgIam {owner : Owner} {r : PolicyCommand OrgIamSettings}
    {p : PolicyState OrgIamSettings} {fact : PolicyEvent}
    (h : (orgIamKind.decider owner).answer r p = .ok fact) :
    (orgIam owner).Apt p.held (Deed.event (.policy owner fact) editor now position sequence) := by
  obtain ⟨hopened, hclosed, hkept, hchanged⟩ := orgIamKind.recorded (fun _ => rfl)
    (fun e he => ⟨nofun, fun hw => he (PolicyEvent.orgIam.inj hw)⟩)
    OrgIamSettings.differs_of_between h
  obtain ⟨e, rfl⟩ := Command.own_of_answer (c := ⟨.orgIam owner, r⟩) h
  have hr : (orgIam owner).revision? (Deed.event (.policy owner (.orgIam e)) editor now position
      sequence) = orgIamKind.revision? (.orgIam e) := revision?_event rfl
  have hdecode := Deed.decode_policy editor now position sequence owner (.orgIam e)
  refine ⟨fun s hs => ⟨hopened s (hr ▸ hs), trivial⟩, fun hc => ?_, hkept, fun c hc => ?_⟩
  · rw [removable, hclosed (hr ▸ hc), Bool.not_false]
  · cases hdecode.symm.trans hc
    exact hchanged c rfl

theorem apt_mailText {iam : String} {key : MailTextKey} {r : MailTextCommand} {m : MailTextState}
    {fact : PolicyEvent} (h : MailText.answer iam key r m = .ok fact) :
    (mailText iam key).Apt m.held
      (Deed.event (.policy (.iam iam) fact) editor now position sequence) := by
  have hr : (mailText iam key).revision?
      (Deed.event (.policy (.iam iam) fact) editor now position sequence)
        = MailText.revision? key fact := revision?_event rfl
  have hdecode := Deed.decode_policy editor now position sequence (.iam iam) fact
  rcases MailText.answer_cases h with ⟨content, -, hkey, hl, rfl⟩ | ⟨next, c, -, hl, hc, rfl⟩
  · rw [MailText.revision?, if_pos rfl] at hr
    refine ⟨fun _ _ => ⟨if_neg hl, MailTextKey.validate_eq_ok hkey⟩, fun hcl => ?_,
      fun _ => PolicyEvent.tag_ne_removed (.mailTextAdded key content) (by simp) (by simp),
      fun c hc => ?_⟩
    · cases hr.symm.trans hcl
    · cases hdecode.symm.trans hc
  · rw [MailText.revision?, if_pos rfl] at hr
    refine ⟨fun _ hop => ?_, fun hcl => ?_,
      fun _ => PolicyEvent.tag_ne_removed (.mailTextChanged key c) (by simp) (by simp),
      fun c' hc' => ?_⟩
    · cases hr.symm.trans hop
    · cases hr.symm.trans hcl
    · cases hdecode.symm.trans hc'
      exact ⟨m.content, if_pos hl, MailTextContent.differs_of_between hc⟩

theorem apt_member {iam : String} {r : MemberCommand} {m : MemberState} {fact : MemberEvent}
    (h : Members.answer iam r m = .ok fact) :
    (member iam r.user).Apt (m.get? r.user)
      (Deed.event (.member iam fact) editor now position sequence) := by
  have hr : (member iam r.user).revision?
      (Deed.event (.member iam fact) editor now position sequence)
        = Members.revision? r.user fact := revision?_event rfl
  have hdecode := Deed.decode_member editor now position sequence iam fact
  have hforeign : fact.tag ∉ PolicyEvent.tags := MemberEvent.tags_disjoint _ fact.tag_mem
  have hkept : fact.tag ≠ PolicyEvent.lockoutTags.removed
      ∧ fact.tag ≠ PolicyEvent.orgIamTags.removed := by
    constructor <;> intro ht <;> rw [ht] at hforeign <;> exact hforeign (by decide)
  refine ⟨fun _ hop => ⟨?_, trivial⟩, fun _ => rfl, fun _ => hkept, ?_⟩
  · rcases Members.answer_cases h with ⟨user, roles, granted, rfl, -, hc, rfl⟩ |
      ⟨user, roles, granted, held, rfl, -, -, -, rfl⟩ | ⟨user, rfl, -, rfl⟩
    · simpa [Index.contains, MemberCommand.user] using hc
    · cases (hr.trans (if_pos rfl)).symm.trans hop
    · cases (hr.trans (if_pos rfl)).symm.trans hop
  · constructor <;> intro roles' hd <;> cases hdecode.symm.trans hd
    · rcases Members.answer_cases h with ⟨user, roles, granted, rfl, hg, -, hfact⟩ |
        ⟨user, roles, granted, held, rfl, -, -, -, hfact⟩ | ⟨user, rfl, -, hfact⟩ <;> cases hfact
      exact Members.requireRoles_ok hg
    · rcases Members.answer_cases h with ⟨user, roles, granted, rfl, -, -, hfact⟩ |
        ⟨user, roles, granted, held, rfl, hheld, hg, hne, hfact⟩ | ⟨user, rfl, -, hfact⟩ <;>
        cases hfact
      exact ⟨Members.requireRoles_ok hg, held, hheld, hne⟩

/-- **Answers** are apt for the slot of their command. -/
theorem apt_answer {x : Slot} {r : x.subject.Request} {state : x.subject.State}
    {fact : x.subject.Fact} (hx : Command.slot ⟨x.subject, r⟩ = x)
    (h : x.subject.decider.answer r state = .ok fact) :
    x.Apt (x.held state) ((x.subject.deed fact).event editor now position sequence) := by
  cases x with
  | lockout owner => exact apt_lockout h
  | orgIam owner => exact apt_orgIam h
  | mailText iam key => exact apt_mailText h
  | member iam user =>
    have hu : r.user = user := (Slot.member.inj hx).2
    have hapt : (member iam r.user).Apt _ (Deed.event (.member iam fact) editor now position
      sequence) := apt_member h
    rw [hu] at hapt
    exact hapt

end Slot

end answer

/-- **Commands.** A command leaves a log as it is, or adds one event about its slot, which is apt for
what the slot holds. -/
theorem EventLog.Kept.land_apt {log : EventLog} (h : log.Kept) (c : Command) (editor : String)
    (now : Instant) :
    c.land editor now log = log ∨ ∃ e, Entered log c.slot e (c.land editor now log) ∧
      c.slot.Apt (log.entry c.slot) e := by
  rcases h.land_cases c editor now with hl | ⟨a, fact, ha, -, hanswer, -, hl⟩
  · exact .inl hl
  · rw [hl]
    obtain ⟨r, hr⟩ := c.exists_request
    generalize hx : c.slot = x at r hr
    subst hr
    refine .inr ⟨_, h.entered hx ha hanswer, ?_⟩
    rw [entry_of_load ha]
    exact Slot.apt_answer hx hanswer

end Chronicle
