import Chronicle.Proofs.Command.Deed
import Chronicle.Proofs.Command.Ledger
/-!
# Answers and the ledger

The state of a subject holds the values of its slots. An answer is a refusal exactly where the
ledger refuses, with the same error; otherwise the deed it leads to, heard by the subject, leaves in
the slot what the ledger puts there, and it is heard by nobody else.

* `Subject.read`: what a state holds of a slot; `Subject.Fit`: what holds of a state that loads;
* `ExactSettings`: a change is found where there is a difference, and closes it;
* **`Command.settle_of_answer`**: answers agree with the ledger;
* `Subject.hear_of_ne`, `Command.read_hear_of_ne`: no other slot changes.
-/

namespace Chronicle

/-! ## Changes -/

/-- There is a change from one record to another unless they are equal, and it leads there. -/
class ExactSettings (S : Type) {C : Type} [Settings S C] : Prop where
  between_eq_none_iff : ∀ {a b : S}, Settings.between a b = none ↔ a = b
  apply_of_between : ∀ {a b : S} {c : C}, Settings.between a b = some c → Settings.apply c a = b

section differing

variable {α : Type} [DecidableEq α] {a b : α}

theorem differing_eq_none_iff : differing a b = none ↔ a = b := by
  unfold differing
  by_cases h : a = b <;> simp [h]

@[simp] theorem getD_differing (a b : α) : (differing a b).getD a = b := by
  unfold differing
  by_cases h : a = b <;> simp [h]

end differing

namespace LockoutSettings

theorem between_eq_none_iff {a b : LockoutSettings} : between a b = none ↔ a = b := by
  obtain ⟨attempts, failures⟩ := a
  obtain ⟨attempts', failures'⟩ := b
  unfold between
  simp [differing_eq_none_iff]

theorem apply_of_between {a b : LockoutSettings} {c : LockoutChange} (h : between a b = some c) :
    apply c a = b := by
  unfold between at h
  dsimp only at h
  split at h
  · cases h
  · cases h
    simp [apply]

end LockoutSettings

namespace OrgIamSettings

theorem between_eq_none_iff {a b : OrgIamSettings} : between a b = none ↔ a = b := by
  obtain ⟨mustBe⟩ := a
  obtain ⟨mustBe'⟩ := b
  unfold between
  simp [differing_eq_none_iff]

theorem apply_of_between {a b : OrgIamSettings} {c : OrgIamChange} (h : between a b = some c) :
    apply c a = b := by
  unfold between at h
  obtain ⟨mustBe, hd, rfl⟩ := Option.map_eq_some_iff.1 h
  have := getD_differing a.loginMustBeDomain b.loginMustBeDomain
  rw [hd] at this
  exact congrArg OrgIamSettings.mk this

end OrgIamSettings

namespace MailTextContent

theorem between_eq_none_iff {a b : MailTextContent} : between a b = none ↔ a = b := by
  obtain ⟨title, preHeader, subject, greeting, body, buttonText⟩ := a
  obtain ⟨title', preHeader', subject', greeting', body', buttonText'⟩ := b
  unfold between
  simp [differing_eq_none_iff]

theorem apply_of_between {a b : MailTextContent} {c : MailTextChange} (h : between a b = some c) :
    apply c a = b := by
  unfold between at h
  dsimp only at h
  split at h
  · cases h
  · cases h
    simp [apply]

end MailTextContent

instance : ExactSettings LockoutSettings where
  between_eq_none_iff := LockoutSettings.between_eq_none_iff
  apply_of_between := LockoutSettings.apply_of_between

instance : ExactSettings OrgIamSettings where
  between_eq_none_iff := OrgIamSettings.between_eq_none_iff
  apply_of_between := OrgIamSettings.apply_of_between

/-! ## What a state holds -/

/-- The settings of a policy that is in effect. -/
def PolicyState.held {S : Type} (p : PolicyState S) : Option S :=
  if p.lifecycle = .active then some p.settings else none

/-- The blocks of a mail text that is set. -/
def MailTextState.held (m : MailTextState) : Option MailTextContent :=
  if m.lifecycle = .active then some m.content else none

/-- The roles of a member, as a set. -/
def MemberState.held (m : MemberState) (user : String) : Option (Finset String) :=
  (m.get? user).map List.toFinset

namespace Subject

/-- What the state of a subject holds of a slot of this subject. -/
def read : (s : Subject) → s.State → (x : Slot) → Option x.Value
  | lockout _, p, .lockout _ => PolicyState.held (S := LockoutSettings) p
  | orgIam _, p, .orgIam _ => PolicyState.held (S := OrgIamSettings) p
  | mailText _ _, m, .mailText _ _ => MailTextState.held m
  | members _, m, .member _ user => MemberState.held m user
  | _, _, _ => none

/-- What holds of the state of a subject that is loaded: where it holds anything, the identifier of
its owner is not blank, and roles are kept in order. -/
def Fit : (s : Subject) → s.State → Prop
  | lockout owner, p => p.lifecycle = .active → Text.allBlank owner.id = false
  | orgIam owner, p => p.lifecycle = .active → Text.allBlank owner.id = false
  | mailText iam _, m => m.lifecycle = .active → Text.allBlank iam = false
  | members iam, m => ∀ user roles, m.get? user = some roles →
      Text.allBlank iam = false ∧ Roles.Ascending roles

theorem fit_initial (s : Subject) : s.Fit s.decider.initial := by
  cases s <;> nofun

/-- What becomes of a slot if a deed leaves `v` in it. An owner without an identifier is refused. -/
def settled {V : Type} (id : String) (v : Option V) : Except Error (Option V) :=
  if Text.allBlank id then .error (.violation (.blank "aggregate id")) else .ok v

end Subject

/-! ## Answers -/

/-- What the answer of a policy is, and what it needs. -/
theorem PolicyKind.answer_cases {S C : Type} [Settings S C] {k : PolicyKind S C} {owner : Owner}
    {r : PolicyCommand S} {p : PolicyState S} {fact : SettingsEvent S C}
    (h : k.answer owner r p = .ok fact) :
    (∃ s, r = .add s ∧ p.lifecycle ≠ .active ∧ fact = .added s) ∨
    (∃ s c, r = .change s ∧ p.lifecycle = .active ∧ Settings.between p.settings s = some c ∧
        fact = .changed c) ∨
    r = .remove ∧ owner.isDefault = false ∧ p.lifecycle = .active ∧ fact = .removed := by
  cases r with
  | add s =>
    unfold answer at h
    dsimp only at h
    split at h
    · cases h
    · rename_i ha
      cases h
      exact .inl ⟨s, rfl, ha, rfl⟩
  | change s =>
    unfold answer at h
    dsimp only at h
    split at h
    · rename_i ha
      cases hb : Settings.between p.settings s with
      | none => simp [hb] at h
      | some c =>
        rw [hb] at h
        cases h
        exact .inr (.inl ⟨s, c, rfl, ha, hb, rfl⟩)
    · cases h
  | remove =>
    unfold answer at h
    dsimp only at h
    split at h
    · cases h
    · rename_i hd
      split at h
      · rename_i ha
        cases h
        exact .inr (.inr ⟨rfl, Bool.eq_false_iff.2 hd, ha, rfl⟩)
      · cases h

section policy

variable {S C : Type} [DecidableEq S] [Settings S C] [ExactSettings S]

/-- The answers of a policy agree with the ledger. -/
theorem PolicyKind.settle_of_answer (k : PolicyKind S C) (owner : Owner) (r : PolicyCommand S)
    (p : PolicyState S) (fit : p.lifecycle = .active → Text.allBlank owner.id = false) :
    Ledger.policy k.what owner p.held r =
      match k.answer owner r p with
      | .error e => .error e
      | .ok e => Subject.settled owner.id (PolicyState.apply e p).held := by
  unfold PolicyState.held
  cases r with
  | add s =>
    by_cases ha : p.lifecycle = .active
    · simp [Ledger.policy, answer, ha]
    · simp [Ledger.policy, answer, ha, Subject.settled, PolicyState.apply]
  | change s =>
    by_cases ha : p.lifecycle = .active
    · cases hb : Settings.between p.settings s with
      | none =>
        have heq := ExactSettings.between_eq_none_iff.1 hb
        rw [heq] at hb
        simp [Ledger.policy, answer, ha, hb, heq]
      | some c =>
        have hne : p.settings ≠ s := fun heq => by
          rw [ExactSettings.between_eq_none_iff.2 heq] at hb
          cases hb
        have happly := ExactSettings.apply_of_between hb
        simp [Ledger.policy, answer, ha, hb, hne, Subject.settled, PolicyState.apply, fit ha,
          happly]
    · simp [Ledger.policy, answer, ha]
  | remove =>
    by_cases ha : p.lifecycle = .active
    · cases hd : owner.isDefault <;>
        simp [Ledger.policy, answer, ha, hd, Subject.settled, PolicyState.apply, fit ha]
    · cases hd : owner.isDefault <;> simp [Ledger.policy, answer, ha, hd]

end policy

/-- The answers of a mail text agree with the ledger. -/
theorem MailText.settle_of_answer (iam : String) (key : MailTextKey) (r : MailTextCommand)
    (m : MailTextState) (fit : m.lifecycle = .active → Text.allBlank iam = false) :
    Ledger.mailText iam key m.held r =
      match answer iam key r m with
      | .error e => .error e
      | .ok e => Subject.settled iam (apply key e m).held := by
  unfold MailTextState.held
  cases r with
  | add content =>
    cases ht : Text.allBlank key.template with
    | true => simp [Ledger.mailText, answer, MailTextKey.validate, ht]
    | false =>
      cases hl : Text.allBlank key.language with
      | true => simp [Ledger.mailText, answer, MailTextKey.validate, ht, hl]
      | false =>
        by_cases ha : m.lifecycle = .active
        · simp [Ledger.mailText, answer, MailTextKey.validate, ht, hl, ha]
        · simp [Ledger.mailText, answer, MailTextKey.validate, ht, hl, ha, Subject.settled, apply]
  | change content =>
    by_cases ha : m.lifecycle = .active
    · cases hb : MailTextContent.between m.content content with
      | none =>
        have heq := MailTextContent.between_eq_none_iff.1 hb
        rw [heq] at hb
        simp [Ledger.mailText, answer, ha, hb, heq]
      | some c =>
        have hne : m.content ≠ content := fun heq => by
          rw [MailTextContent.between_eq_none_iff.2 heq] at hb
          cases hb
        have happly := MailTextContent.apply_of_between hb
        simp [Ledger.mailText, answer, ha, hb, hne, Subject.settled, apply, fit ha, happly]
    · simp [Ledger.mailText, answer, ha]

/-- The answers of the members agree with the ledger. -/
theorem Members.settle_of_answer (iam : String) (r : MemberCommand) (m : MemberState)
    (fit : ∀ user roles, m.get? user = some roles →
      Text.allBlank iam = false ∧ Roles.Ascending roles) :
    Ledger.member iam (m.held r.user) r =
      match answer iam r m with
      | .error e => .error e
      | .ok e => Subject.settled iam (MemberState.held (apply e m) r.user) := by
  unfold MemberState.held
  cases r with
  | add user roles =>
    by_cases hr : Roles.granted roles = ∅
    · have hn := Roles.normalize_isEmpty.2 hr
      simp [Ledger.member, answer, requireRoles, hr, hn]
    · have hn : (Roles.normalize roles).isEmpty = false := by
        rw [Bool.eq_false_iff, Ne, Roles.normalize_isEmpty]
        exact hr
      cases hm : m.get? user with
      | some held =>
        simp [Ledger.member, answer, requireRoles, MemberCommand.user, Index.contains, hr, hn, hm]
      | none =>
        simp [Ledger.member, answer, requireRoles, MemberCommand.user, Index.contains, hr, hn, hm,
          Subject.settled, apply, Roles.toFinset_normalize]
  | change user roles =>
    cases hm : m.get? user with
    | none => simp [Ledger.member, answer, MemberCommand.user, hm]
    | some held =>
      obtain ⟨hid, hasc⟩ := fit user held hm
      by_cases hr : Roles.granted roles = ∅
      · have hn := Roles.normalize_isEmpty.2 hr
        simp [Ledger.member, answer, requireRoles, MemberCommand.user, hm, hr, hn]
      · have hn : (Roles.normalize roles).isEmpty = false := by
          rw [Bool.eq_false_iff, Ne, Roles.normalize_isEmpty]
          exact hr
        by_cases hs : held = Roles.normalize roles
        · simp [Ledger.member, answer, requireRoles, MemberCommand.user, hm, hr, hn, hs,
            Roles.toFinset_normalize]
        · have hset : held.toFinset ≠ Roles.granted roles :=
            fun h => hs ((Roles.normalize_eq_iff hasc).2 h)
          simp [Ledger.member, answer, requireRoles, MemberCommand.user, hm, hr, hn, hs, hset,
            Subject.settled, hid, apply, Roles.toFinset_normalize]
  | remove user =>
    cases hm : m.get? user with
    | none => simp [Ledger.member, answer, MemberCommand.user, Index.contains, hm]
    | some held =>
      obtain ⟨hid, -⟩ := fit user held hm
      simp [Ledger.member, answer, MemberCommand.user, Index.contains, hm, Subject.settled, hid,
        apply]

/-- **Answers.** A command is refused exactly where the ledger refuses it, with the same error.
Otherwise what the ledger puts into the slot is what the subject holds once it heard the deed; an
owner without an identifier is still to be refused. -/
theorem Command.settle_of_answer (c : Command) {state : c.subject.State}
    (fit : c.subject.Fit state) :
    c.settle (c.subject.read state c.slot) =
      match c.subject.decider.answer c.request state with
      | .error e => .error e
      | .ok fact =>
        Subject.settled (c.subject.deed fact).owner.id
          (c.subject.read (c.subject.hear (c.subject.deed fact) state) c.slot) := by
  obtain ⟨subject, r⟩ := c
  cases subject with
  | lockout owner =>
    have hanswer : (Subject.lockout owner).decider.answer r state
        = (lockoutKind.answer owner r state).map lockoutKind.wrap := rfl
    refine (lockoutKind.settle_of_answer owner r state fit).trans ?_
    dsimp only
    rw [hanswer]
    cases lockoutKind.answer owner r state <;> rfl
  | orgIam owner =>
    have hanswer : (Subject.orgIam owner).decider.answer r state
        = (orgIamKind.answer owner r state).map orgIamKind.wrap := rfl
    refine (orgIamKind.settle_of_answer owner r state fit).trans ?_
    dsimp only
    rw [hanswer]
    cases orgIamKind.answer owner r state <;> rfl
  | mailText iam key =>
    have hanswer : (Subject.mailText iam key).decider.answer r state
        = MailText.answer iam key r state := rfl
    refine (MailText.settle_of_answer iam key r state fit).trans ?_
    dsimp only
    rw [hanswer]
    cases MailText.answer iam key r state <;> rfl
  | members iam =>
    have hanswer : (Subject.members iam).decider.answer r state
        = Members.answer iam r state := rfl
    refine (Members.settle_of_answer iam r state fit).trans ?_
    dsimp only
    rw [hanswer]
    cases Members.answer iam r state <;> rfl

/-! ## Who hears a deed -/

namespace Subject

/-- A fact of the own kind of a subject. -/
def Own : (s : Subject) → s.Fact → Prop
  | lockout _, fact => ∃ e, fact = PolicyEvent.lockout e
  | orgIam _, fact => ∃ e, fact = PolicyEvent.orgIam e
  | mailText _ key, fact =>
    (∃ content, fact = PolicyEvent.mailTextAdded key content) ∨
      ∃ change, fact = PolicyEvent.mailTextChanged key change
  | members _, _ => True

end Subject

theorem Owner.eq_of_stream {o o' : Owner} (kind : o.stream.kind = o'.stream.kind)
    (id : o.stream.id = o'.stream.id) : o = o' := by
  have hne : iamKind ≠ orgKind := by decide
  cases o with
  | iam a =>
    cases o' with
    | iam b => exact congrArg Owner.iam id
    | org b => exact absurd kind hne
  | org a =>
    cases o' with
    | iam b => exact absurd kind hne.symm
    | org b => exact congrArg Owner.org id

/-- Every stream is the stream of an owner. -/
theorem Subject.exists_owner (s : Subject) : ∃ o : Owner, s.stream = o.stream := by
  cases s with
  | lockout owner => exact ⟨owner, rfl⟩
  | orgIam owner => exact ⟨owner, rfl⟩
  | mailText iam key => exact ⟨.iam iam, rfl⟩
  | members iam => exact ⟨.iam iam, rfl⟩

theorem Owner.eq_of_stream_eq {o o' : Owner} (h : o.stream = o'.stream) : o = o' :=
  eq_of_stream (congrArg Stream.kind h) (congrArg Stream.id h)

/-- Streams of subjects that go by one kind and one identifier are the same. -/
theorem Subject.stream_eq {s s' : Subject} (kind : s.stream.kind = s'.stream.kind)
    (id : s.stream.id = s'.stream.id) : s.stream = s'.stream := by
  obtain ⟨o, ho⟩ := s.exists_owner
  obtain ⟨o', ho'⟩ := s'.exists_owner
  rw [ho, ho'] at kind id ⊢
  exact congrArg Owner.stream (Owner.eq_of_stream kind id)

namespace MailText

variable {iam : String} {key : MailTextKey} {r : MailTextCommand} {m : MailTextState}
  {fact : PolicyEvent}

/-- What an answer is, and what it needs. -/
theorem answer_cases (h : answer iam key r m = .ok fact) :
    (∃ content, r = .add content ∧ key.validate = .ok () ∧ m.lifecycle ≠ .active ∧
        fact = .mailTextAdded key content) ∨
      ∃ content change, r = .change content ∧ m.lifecycle = .active ∧
        MailTextContent.between m.content content = some change ∧
        fact = .mailTextChanged key change := by
  cases r with
  | add content =>
    unfold answer at h
    dsimp only at h
    cases hk : key.validate with
    | error e => simp [hk] at h
    | ok u =>
      rw [hk] at h
      dsimp only at h
      split at h
      · cases h
      · rename_i ha
        cases h
        exact .inl ⟨content, rfl, rfl, ha, rfl⟩
  | change content =>
    unfold answer at h
    dsimp only at h
    split at h
    · rename_i ha
      cases hb : MailTextContent.between m.content content with
      | none => simp [hb] at h
      | some change =>
        rw [hb] at h
        cases h
        exact .inr ⟨content, change, rfl, ha, hb, rfl⟩
    · cases h

theorem own_of_answer (h : answer iam key r m = .ok fact) :
    (Subject.mailText iam key).Own fact := by
  rcases answer_cases h with ⟨content, -, -, -, rfl⟩ | ⟨_, change, -, -, -, rfl⟩
  · exact .inl ⟨content, rfl⟩
  · exact .inr ⟨change, rfl⟩

end MailText

/-- The answer to a command is a fact of its subject's kind. -/
theorem Command.own_of_answer {c : Command} {state : c.subject.State} {fact : c.subject.Fact}
    (h : c.subject.decider.answer c.request state = .ok fact) : c.subject.Own fact := by
  obtain ⟨subject, r⟩ := c
  cases subject with
  | lockout owner =>
    change (lockoutKind.answer owner r state).map lockoutKind.wrap = .ok fact at h
    cases ha : lockoutKind.answer owner r state <;> rw [ha] at h <;> cases h
    exact ⟨_, rfl⟩
  | orgIam owner =>
    change (orgIamKind.answer owner r state).map orgIamKind.wrap = .ok fact at h
    cases ha : orgIamKind.answer owner r state <;> rw [ha] at h <;> cases h
    exact ⟨_, rfl⟩
  | mailText iam key => exact MailText.own_of_answer h
  | members iam => trivial

namespace Subject

variable {s s' : Subject} {fact : s.Fact}

/-- Another subject on the same stream does not hear a deed. -/
theorem hear_of_ne (own : s.Own fact) (hne : s' ≠ s) (kind : s'.stream.kind = s.stream.kind)
    (id : s'.stream.id = s.stream.id) (state : s'.State) :
    s'.hear (s.deed fact) state = state := by
  cases s with
  | lockout owner =>
    obtain ⟨e, rfl⟩ := own
    cases s' with
    | lockout owner' => exact absurd (congrArg lockout (Owner.eq_of_stream kind id)) hne
    | _ => rfl
  | orgIam owner =>
    obtain ⟨e, rfl⟩ := own
    cases s' with
    | orgIam owner' => exact absurd (congrArg orgIam (Owner.eq_of_stream kind id)) hne
    | _ => rfl
  | mailText iam key =>
    cases s' with
    | mailText iam' key' =>
      have hkey : key ≠ key' := by
        rintro rfl
        exact hne (congrArg (mailText · key) id)
      rcases own with ⟨content, rfl⟩ | ⟨change, rfl⟩ <;> exact if_neg hkey
    | members iam' => rfl
    | _ => rcases own with ⟨content, rfl⟩ | ⟨change, rfl⟩ <;> rfl
  | members iam =>
    cases s' with
    | members iam' => exact absurd (congrArg members id) hne
    | _ => rfl

end Subject

namespace Members

variable {iam : String} {r : MemberCommand} {m : MemberState} {fact : MemberEvent}

theorem requireRoles_ok {user : String} {roles roles' : List String}
    (h : requireRoles iam user roles = .ok roles') : Roles.Canonical roles' := by
  unfold requireRoles at h
  dsimp only at h
  split at h
  · cases h
  · rename_i hsome
    cases h
    exact Roles.canonical_normalize (Bool.eq_false_iff.2 hsome)

/-- What an answer is, and what it needs. -/
theorem answer_cases (h : answer iam r m = .ok fact) :
    (∃ user roles granted, r = .add user roles ∧ requireRoles iam user roles = .ok granted ∧
        m.contains user = false ∧ fact = .added user granted) ∨
    (∃ user roles granted held, r = .change user roles ∧ m.get? user = some held ∧
        requireRoles iam user roles = .ok granted ∧ held ≠ granted ∧
        fact = .changed user granted) ∨
    ∃ user, r = .remove user ∧ m.contains user = true ∧ fact = .removed user := by
  cases r with
  | add user roles =>
    unfold answer at h
    dsimp only at h
    cases hr : requireRoles iam user roles with
    | error e => simp [hr] at h
    | ok granted =>
      rw [hr] at h
      dsimp only at h
      split at h
      · cases h
      · rename_i hc
        cases h
        exact .inl ⟨user, roles, granted, rfl, hr, Bool.eq_false_iff.2 hc, rfl⟩
  | change user roles =>
    unfold answer at h
    dsimp only at h
    cases hm : m.get? user with
    | none => simp [hm] at h
    | some held =>
      cases hr : requireRoles iam user roles with
      | error e => simp [hm, hr] at h
      | ok granted =>
        rw [hm, hr] at h
        dsimp only at h
        split at h
        · cases h
        · rename_i hne
          cases h
          exact .inr (.inl ⟨user, roles, granted, held, rfl, hm, hr, hne, rfl⟩)
  | remove user =>
    unfold answer at h
    dsimp only at h
    split at h
    · rename_i hc
      cases h
      exact .inr (.inr ⟨user, rfl, hc, rfl⟩)
    · cases h

/-- An answer gives roles to the user it is about, in order, or takes them away. -/
theorem apply_of_answer (h : answer iam r m = .ok fact) :
    (∃ roles, Roles.Ascending roles ∧ apply fact m = m.insert r.user roles) ∨
      apply fact m = m.erase r.user := by
  rcases answer_cases h with ⟨user, roles, granted, rfl, hr, -, rfl⟩ |
    ⟨user, roles, granted, held, rfl, -, hr, -, rfl⟩ | ⟨user, rfl, -, rfl⟩
  · exact .inl ⟨granted, (requireRoles_ok hr).2.1, rfl⟩
  · exact .inl ⟨granted, (requireRoles_ok hr).2.1, rfl⟩
  · exact .inr rfl

end Members

namespace Command

variable {c : Command} {state : c.subject.State} {fact : c.subject.Fact}

/-- A command leaves the other slots of its subject as they are. -/
theorem read_hear_of_ne (h : c.subject.decider.answer c.request state = .ok fact) {x : Slot}
    (hsub : x.subject = c.subject) (hne : x ≠ c.slot) :
    c.subject.read (c.subject.hear (c.subject.deed fact) state) x = c.subject.read state x := by
  obtain ⟨subject, r⟩ := c
  cases subject with
  | lockout owner =>
    cases x with
    | lockout o =>
      cases hsub
      exact absurd rfl hne
    | _ => cases hsub
  | orgIam owner =>
    cases x with
    | orgIam o =>
      cases hsub
      exact absurd rfl hne
    | _ => cases hsub
  | mailText iam key =>
    cases x with
    | mailText i k =>
      cases hsub
      exact absurd rfl hne
    | _ => cases hsub
  | members iam =>
    cases x with
    | member iam' user =>
      cases hsub
      have hu : user ≠ r.user := fun hu => hne (congrArg (Slot.member iam) hu)
      change MemberState.held (Members.apply fact state) user = MemberState.held state user
      unfold MemberState.held
      rcases Members.apply_of_answer h with ⟨roles, -, ha⟩ | ha
      · rw [ha, Index.get?_insert_of_ne hu]
      · rw [ha, Index.get?_erase_of_ne hu]
    | _ => cases hsub

/-- Under an identifier that is not blank the state stays fit. -/
theorem fit_hear (h : c.subject.decider.answer c.request state = .ok fact)
    (fit : c.subject.Fit state)
    (hid : Text.allBlank (c.subject.deed fact).owner.id = false) :
    c.subject.Fit (c.subject.hear (c.subject.deed fact) state) := by
  obtain ⟨subject, r⟩ := c
  cases subject with
  | lockout owner => exact fun _ => hid
  | orgIam owner => exact fun _ => hid
  | mailText iam key => exact fun _ => hid
  | members iam =>
    intro user roles hget
    change Index.get? (Members.apply fact state) user = some roles at hget
    refine ⟨hid, ?_⟩
    by_cases hu : user = r.user
    · subst hu
      rcases Members.apply_of_answer h with ⟨roles', hasc, ha⟩ | ha
      · rw [ha, Index.get?_insert_self] at hget
        cases hget
        exact hasc
      · rw [ha, Index.get?_erase_self] at hget
        cases hget
    · rcases Members.apply_of_answer h with ⟨roles', -, ha⟩ | ha
      · rw [ha, Index.get?_insert_of_ne hu] at hget
        exact (fit user roles hget).2
      · rw [ha, Index.get?_erase_of_ne hu] at hget
        exact (fit user roles hget).2

end Command
end Chronicle
