import Chronicle.Proofs.Command.Pending
import Chronicle.Proofs.Log.Legal
/-!
# Memberships

The roles of a member are recorded as a normalized list and read back as they were recorded. So every
list that is held is the set that it stands for, and to compare a request with it is to compare two
sets.

* `MemberState.Tidy`, `Members.tidy_replayEvent`: what one event leaves of it;
* `EventLog.Legal.tidy`, `EventLog.Legal.canonical`: what a whole stream leaves, and what it gives;
* `Members.answer_change_iff`: when a change of roles changes nothing;
* `EventLog.KeepsSets`, **`Desk.role_sets_run`**: whatever the turns of callers, roles are sets.
-/

namespace Chronicle

/-! ## What is held -/

/-- Every list of roles that is held has the form in which roles are recorded. -/
def MemberState.Tidy (m : MemberState) : Prop :=
  ∀ user roles, m.get? user = some roles → Roles.Canonical roles

namespace Members

variable {iam user : String} {m : MemberState} {roles : List String}

theorem tidy_insert (h : MemberState.Tidy m) (hroles : Roles.Canonical roles) :
    MemberState.Tidy (m.insert user roles) := by
  intro user' roles' hget
  by_cases hu : user' = user
  · subst hu
    rw [Index.get?_insert_self] at hget
    cases hget
    exact hroles
  · rw [Index.get?_insert_of_ne hu] at hget
    exact h user' roles' hget

theorem tidy_erase (h : MemberState.Tidy m) : MemberState.Tidy (m.erase user) := by
  intro user' roles' hget
  by_cases hu : user' = user
  · subst hu
    rw [Index.get?_erase_self] at hget
    cases hget
  · rw [Index.get?_erase_of_ne hu] at hget
    exact h user' roles' hget

/-- **Events.** What is held stays tidy behind an event that is sharp. -/
theorem tidy_replayEvent {a a' : Aggregate MemberState MemberEvent} {e : Event}
    (h : (decider iam).replayEvent a e = .ok a') (tidy : MemberState.Tidy a.state)
    (sharp : ∀ user, (Slot.member iam user).Sharp (a.state.get? user) e) :
    MemberState.Tidy a'.state := by
  rcases Decider.state_of_replayEvent h with hs | ⟨fact, hd, hs⟩
  · rwa [hs]
  · rw [hs]
    cases fact with
    | added user roles => exact tidy_insert tidy ((sharp user).1 roles hd)
    | changed user roles => exact tidy_insert tidy ((sharp user).2 roles hd).1
    | removed user => exact tidy_erase tidy

end Members

/-- The stream of an instance. -/
def EventLog.ofInstance (log : EventLog) (iam : String) : List Event :=
  log.history (Owner.iam iam).stream.kind (Owner.iam iam).stream.id

namespace EventLog.Legal

variable {log : EventLog} {iam : String} {es : List Event}
  {a : Aggregate MemberState MemberEvent}

/-- The members can be replayed from every part of their stream. -/
theorem exists_replay_members (h : log.Legal) (hes : es <+: log.ofInstance iam) :
    ∃ a, (Members.decider iam).replay (Members.decider iam).fresh es = .ok a := by
  obtain ⟨a, ha⟩ := h.replays (.member iam "") es.length
  change (Members.decider iam).replay (Members.decider iam).fresh
    ((log.ofInstance iam).take es.length) = .ok a at ha
  rw [← List.prefix_iff_eq_take.1 hes] at ha
  exact ⟨a, ha⟩

/-- **Streams.** Every part of the stream of an instance leaves its members tidy. -/
theorem tidy (h : log.Legal) (hes : es <+: log.ofInstance iam)
    (ha : (Members.decider iam).replay (Members.decider iam).fresh es = .ok a) :
    MemberState.Tidy a.state := by
  induction es using List.reverseRecOn generalizing a with
  | nil =>
    cases ha
    intro user roles hget
    cases hget
  | append_singleton es e ih =>
    have hbefore : es <+: log.ofInstance iam := (List.prefix_append es [e]).trans hes
    obtain ⟨b, hb⟩ := h.exists_replay_members hbefore
    obtain ⟨after, hsplit⟩ := hes
    rw [List.append_assoc] at hsplit
    rw [Decider.replay_concat hb] at ha
    exact Members.tidy_replayEvent ha (ih hbefore hb) fun user =>
      h.sharp (.member iam user) es e after b hsplit.symm hb

/-- The events of the stream give roles as they are to be recorded. -/
theorem canonical (h : log.Legal) {e : Event} (he : e ∈ log.ofInstance iam) {user : String}
    {roles : List String} (hd : MemberEvent.codec.decode e = .ok (.added user roles) ∨
      MemberEvent.codec.decode e = .ok (.changed user roles)) : Roles.Canonical roles := by
  obtain ⟨before, after, hsplit⟩ := List.append_of_mem he
  have hbefore : before <+: log.ofInstance iam := ⟨e :: after, hsplit.symm⟩
  obtain ⟨b, hb⟩ := h.exists_replay_members hbefore
  have hsharp := h.sharp (.member iam user) before e after b hsplit hb
  rcases hd with hd | hd
  · exact hsharp.1 roles hd
  · exact (hsharp.2 roles hd).1

end EventLog.Legal

/-! ## Changes of roles -/

section change

variable {iam user : String} {roles held : List String}

/-- A change is refused as no change if it asks for the set of roles that is held. -/
theorem Members.answer_change_iff {m : MemberState} (hheld : m.get? user = some held)
    (canonical : Roles.Canonical held) :
    answer iam (.change user roles) m = .error (.violation (.unchangedRoles user)) ↔
      Roles.granted roles = held.toFinset := by
  rw [eq_comm (a := Roles.granted roles), ← Roles.normalize_eq_iff canonical.2.1]
  simp only [answer, hheld, requireRoles]
  cases hn : (Roles.normalize roles).isEmpty with
  | true =>
    -- nothing is asked for, and something is held
    have hne : held ≠ Roles.normalize roles := by
      rw [List.isEmpty_iff.1 hn]
      exact canonical.1
    simp [hne]
  | false => by_cases hs : held = Roles.normalize roles <;> simp [hs]

variable {log : EventLog} {editor : String} {now : Instant} {e : Error}

/-- A log that takes the payload of every fact refuses facts for blank names only. -/
theorem EventLog.Takes.validate_eq_error (takes : log.Takes) {stream : Stream} {d : Deed}
    (h : validate log.schemas stream [d.draft editor now] = .error e) :
    ∃ field, e = .violation (.blank field) := by
  unfold validate Draft.validateAll at h
  rw [takes d editor now] at h
  split at h
  · exact ⟨_, (Except.error.inj h).symm⟩
  split at h
  · exact ⟨_, (Except.error.inj h).symm⟩
  split at h
  · exact ⟨_, (Except.error.inj h).symm⟩
  · cases h

/-- What is decided to be wrong with a command is what it is refused with; an append adds blank names
only. -/
theorem Command.handle_eq_error_iff {c : Command} (n : log.Numbered) (takes : log.Takes)
    {a : Aggregate c.subject.State c.subject.Fact} (ha : c.subject.decider.load log = .ok a)
    (he : ∀ field, e ≠ .violation (.blank field)) :
    c.handle editor now log = .error e ↔ c.subject.decider.answer c.request a.state = .error e := by
  rw [Command.handle_of_load n ha]
  cases c.subject.decider.answer c.request a.state with
  | error e' => simp
  | ok fact =>
    dsimp only
    cases hv : validate log.schemas c.stream [(c.subject.deed fact).draft editor now] with
    | error e' =>
      obtain ⟨field, rfl⟩ := takes.validate_eq_error hv
      simpa using (he field).symm
    | ok u => simp

end change

/-! ## Callers at one log -/

/-- What a log keeps of the members of an instance: sets of roles. -/
structure EventLog.KeepsSets (log : EventLog) (iam : String) : Prop where
  /-- The members can be loaded. -/
  loads : ∃ a, (Members.decider iam).load log = .ok a
  /-- Every list that is recorded is not empty and normalized. -/
  recorded : ∀ e ∈ log.ofInstance iam, ∀ user roles,
    MemberEvent.codec.decode e = .ok (.added user roles) ∨
      MemberEvent.codec.decode e = .ok (.changed user roles) →
    roles ≠ [] ∧ Roles.normalize roles = roles
  /-- Every list that is held is not empty and normalized. -/
  held : ∀ a, (Members.decider iam).load log = .ok a → ∀ user roles,
    a.state.get? user = some roles → roles ≠ [] ∧ Roles.normalize roles = roles
  /-- A change is refused as no change exactly if it asks for the set that is held. -/
  decided : ∀ a, (Members.decider iam).load log = .ok a → ∀ user held,
    a.state.get? user = some held → ∀ roles editor now,
    Command.prepare ⟨.members iam, .change user roles⟩ editor now (log.ofInstance iam)
        = .error (.violation (.unchangedRoles user)) ↔ Roles.granted roles = held.toFinset
  /-- So is the call that it is decided in, if the log takes the payload of every fact. -/
  refused : log.Takes → ∀ a, (Members.decider iam).load log = .ok a → ∀ user held,
    a.state.get? user = some held → ∀ roles editor now,
    Command.handle ⟨.members iam, .change user roles⟩ editor now log
        = .error (.violation (.unchangedRoles user)) ↔ Roles.granted roles = held.toFinset

/-- A log that is legal keeps sets of roles. -/
theorem EventLog.Legal.keepsSets {log : EventLog} (h : log.Legal) (n : log.Numbered)
    (iam : String) : log.KeepsSets iam where
  loads := h.exists_replay_members (List.prefix_refl _)
  recorded := by
    intro e he user roles hd
    have hcanonical := h.canonical he hd
    exact ⟨hcanonical.1, hcanonical.normalize_eq⟩
  held := by
    intro a ha user roles hget
    have hcanonical := h.tidy (List.prefix_refl _) ha user roles hget
    exact ⟨hcanonical.1, hcanonical.normalize_eq⟩
  decided := by
    intro a ha user held hget roles editor now
    refine (Decider.prepare_eq_error_iff ha).trans ?_
    exact Members.answer_change_iff hget (h.tidy (List.prefix_refl _) ha user held hget)
  refused := by
    intro takes a ha user held hget roles editor now
    refine (Command.handle_eq_error_iff (c := ⟨.members iam, .change user roles⟩) n takes ha ?_).trans
      ?_
    · rintro field ⟨⟩
    exact Members.answer_change_iff hget (h.tidy (List.prefix_refl _) ha user held hget)

/-- **Role sets.** Every role list is normalized to the set that it stands for. And callers of commands
and seeders may take their turns in any order, at one log that is empty at first: behind all turns
the members of every instance hold sets of roles, and a change is refused exactly if it asks for the
set that is held. -/
theorem Desk.role_sets_run {ι : Type} [DecidableEq ι] (schemas : Option SchemaSet) (jobs : ι → Job)
    (now : Instant) (turns : List (ι × Instant)) :
    (∀ roles, Roles.SetLaw roles) ∧
      ∀ iam, ((Desk.start now { schemas := schemas } jobs).run turns).log.KeepsSets iam := by
  have hprepared : (Desk.start now { schemas := schemas } jobs).Prepared :=
    prepared_start (EventLog.numbered_of_events_eq_nil rfl)
  obtain ⟨errands, hlog⟩ := hprepared.exists_after turns
  refine ⟨Roles.setLaw, fun iam => ?_⟩
  rw [hlog]
  exact (EventLog.legal_after rfl errands).keepsSets (EventLog.kept_after rfl errands).numbered iam

end Chronicle
