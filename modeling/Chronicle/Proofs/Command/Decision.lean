import Chronicle.Proofs.Command.Deed
/-!
# Decisions and their appends

A command is decided on a log, and its attempt is made on a later one. As long as the stream has not
moved on in between, this is the same as handling the command on the later log; if it has, the
attempt is refused with a conflict, and decisions themselves never end in one.

* `Error.isConflict`, `Command.isConflict_of_prepare`: decisions do not conflict;
* `Command.prepare_cases`: what an attempt consists of;
* `Errand.Decided`: an attempt that was decided on an earlier log;
* **`Errand.Decided.handle`**: an attempt that is made;
* **`Errand.Decided.refused`**: an attempt that is refused.
-/

namespace Chronicle

/-- The error says that a stream has moved on. -/
def Error.isConflict : Error → Bool
  | .conflict _ _ _ => true
  | _ => false

/-! ## Decisions do not conflict -/

theorem Registry.isConflict_of_decode {ε : Type} {r : Registry ε} {tag : String} {payload : Json}
    {e : Error} (h : r.decode tag payload = .error e) : e.isConflict = false := by
  unfold decode at h
  cases hr : r.get? tag with
  | none =>
    rw [hr] at h
    cases h
    rfl
  | some reader =>
    rw [hr] at h
    dsimp only at h
    cases hp : reader payload with
    | none =>
      rw [hp] at h
      cases h
      rfl
    | some event =>
      rw [hp] at h
      cases h

theorem Decider.isConflict_of_replay {κ σ ε : Type} {d : Decider κ σ ε}
    (hcodec : ∀ event e, d.codec.decode event = .error e → e.isConflict = false)
    {a : Aggregate σ ε} {es : List Event} {e : Error} (h : d.replay a es = .error e) :
    e.isConflict = false := by
  induction es generalizing a with
  | nil => cases h
  | cons event rest ih =>
    rw [replay] at h
    cases hev : d.replayEvent a event with
    | ok a' =>
      rw [hev] at h
      exact ih h
    | error err =>
      rw [hev] at h
      cases h
      unfold replayEvent at hev
      split at hev
      · cases hev
        rfl
      · split at hev
        · cases hev
          rfl
        · split at hev
          · cases hd : d.codec.decode event with
            | error err' =>
              rw [hd] at hev
              cases hev
              exact hcodec event _ hd
            | ok fact =>
              rw [hd] at hev
              cases hev
          · cases hev

namespace Subject

theorem isConflict_of_decode (s : Subject) {event : Event} {e : Error}
    (h : s.decider.codec.decode event = .error e) : e.isConflict = false := by
  cases s <;> exact Registry.isConflict_of_decode h

theorem isConflict_of_policy {S C : Type} [Settings S C] {k : PolicyKind S C} {owner : Owner}
    {r : PolicyCommand S} {p : PolicyState S} {e : Error}
    (h : (k.answer owner r p).map k.wrap = .error e) : e.isConflict = false := by
  cases ha : k.answer owner r p with
  | ok fact =>
    rw [ha] at h
    cases h
  | error err =>
    rw [ha] at h
    cases h
    cases r with
    | add s =>
      unfold PolicyKind.answer at ha
      dsimp only at ha
      split at ha <;> cases ha
      rfl
    | change s =>
      unfold PolicyKind.answer at ha
      dsimp only at ha
      split at ha
      · cases hb : Settings.between p.settings s <;> rw [hb] at ha <;> cases ha
        rfl
      · cases ha
        rfl
    | remove =>
      unfold PolicyKind.answer at ha
      dsimp only at ha
      split at ha
      · cases ha
        rfl
      · split at ha <;> cases ha
        rfl

theorem isConflict_of_mailText {iam : String} {key : MailTextKey} {r : MailTextCommand}
    {m : MailTextState} {e : Error} (h : MailText.answer iam key r m = .error e) :
    e.isConflict = false := by
  cases r with
  | add content =>
    unfold MailText.answer MailTextKey.validate at h
    dsimp only at h
    split at h
    · rename_i hk
      split at hk
      · cases hk
        cases h
        rfl
      · split at hk <;> cases hk
        cases h
        rfl
    · split at h <;> cases h
      rfl
  | change content =>
    unfold MailText.answer at h
    dsimp only at h
    split at h
    · cases hb : MailTextContent.between m.content content <;> rw [hb] at h <;> cases h
      rfl
    · cases h
      rfl

theorem isConflict_of_requireRoles {iam user : String} {roles : List String} {e : Error}
    (h : Members.requireRoles iam user roles = .error e) : e.isConflict = false := by
  unfold Members.requireRoles at h
  dsimp only at h
  split at h <;> cases h
  rfl

theorem isConflict_of_member {iam : String} {r : MemberCommand} {m : MemberState} {e : Error}
    (h : Members.answer iam r m = .error e) : e.isConflict = false := by
  cases r with
  | add user roles =>
    unfold Members.answer at h
    dsimp only at h
    cases hr : Members.requireRoles iam user roles with
    | error err =>
      rw [hr] at h
      cases h
      exact isConflict_of_requireRoles hr
    | ok roles' =>
      rw [hr] at h
      dsimp only at h
      split at h <;> cases h
      rfl
  | change user roles =>
    unfold Members.answer at h
    dsimp only at h
    split at h
    · cases h
      rfl
    · cases hr : Members.requireRoles iam user roles with
      | error err =>
        rw [hr] at h
        cases h
        exact isConflict_of_requireRoles hr
      | ok roles' =>
        rw [hr] at h
        dsimp only at h
        split at h <;> cases h
        rfl
  | remove user =>
    unfold Members.answer at h
    dsimp only at h
    split at h <;> cases h
    rfl

theorem isConflict_of_answer {s : Subject} {r : s.Request} {state : s.State} {e : Error}
    (h : s.decider.answer r state = .error e) : e.isConflict = false := by
  cases s with
  | lockout owner => exact isConflict_of_policy h
  | orgIam owner => exact isConflict_of_policy h
  | mailText iam key => exact isConflict_of_mailText h
  | members iam => exact isConflict_of_member h

end Subject

namespace Command

variable {c : Command} {editor : String} {now : Instant} {log : EventLog} {a : Attempt}

/-- Deciding on a command does not end in a conflict. -/
theorem isConflict_of_prepare {history : List Event} {e : Error}
    (h : c.prepare editor now history = .error e) : e.isConflict = false := by
  cases hr : c.subject.decider.replay c.subject.decider.fresh history with
  | error err =>
    have hprepare : c.prepare editor now history = .error err := by
      unfold prepare Decider.prepare
      rw [hr]
    rw [hprepare] at h
    cases h
    exact Decider.isConflict_of_replay (fun _ _ => c.subject.isConflict_of_decode) hr
  | ok agg =>
    have hprepare : c.prepare editor now history = _ :=
      Decider.prepare_of_replay hr c.request editor now
    rw [hprepare] at h
    cases hanswer : c.subject.decider.answer c.request agg.state with
    | error err =>
      rw [hanswer] at h
      cases h
      exact Subject.isConflict_of_answer hanswer
    | ok fact =>
      rw [hanswer] at h
      cases h

/-- **Decisions.** An attempt appends one deed to the stream of its command, behind the head that
the stream has in the log that was read. -/
theorem prepare_cases (n : log.Numbered)
    (h : c.prepare editor now (log.history c.stream.kind c.stream.id) = .ok a) :
    ∃ fact, a.stream = c.stream ∧ a.expected = log.head c.stream.kind c.stream.id ∧
      a.drafts = [(c.subject.deed fact).draft editor now] := by
  cases hload : c.subject.decider.load log with
  | error err =>
    have hprepare : c.prepare editor now (log.history c.stream.kind c.stream.id) = .error err := by
      have hr : c.subject.decider.replay c.subject.decider.fresh
          (log.history c.stream.kind c.stream.id) = .error err := hload
      unfold prepare Decider.prepare
      rw [hr]
    rw [hprepare] at h
    cases h
  | ok agg =>
    have hprepare : c.prepare editor now (log.history c.stream.kind c.stream.id) = _ :=
      Decider.prepare_of_replay hload c.request editor now
    rw [hprepare] at h
    cases hanswer : c.subject.decider.answer c.request agg.state with
    | error err =>
      rw [hanswer] at h
      cases h
    | ok fact =>
      rw [hanswer] at h
      cases h
      exact ⟨fact, rfl, n.sequence_of_load hload,
        congrArg (fun d => [d]) (c.subject.answerDraft_eq fact agg.sequence editor now)⟩

end Command

/-! ## Attempts that were decided earlier -/

/-- The history of a stream is the same in a log that has grown, as long as its head is. -/
theorem EventLog.Numbered.history_eq_of_head_eq {log log' : EventLog} (n : log.Numbered)
    (n' : log'.Numbered) (hlog : log.events <+: log'.events) {kind id : String}
    (hhead : log'.head kind id = log.head kind id) :
    log'.history kind id = log.history kind id := by
  have hprefix : log.ofStream kind id <+: log'.ofStream kind id := by
    obtain ⟨more, hmore⟩ := hlog
    unfold EventLog.ofStream
    rw [← hmore, List.filter_append]
    exact List.prefix_append ..
  have hlength : (log.ofStream kind id).length = (log'.ofStream kind id).length := by
    rw [n.head_eq, n'.head_eq] at hhead
    omega
  rw [n.history_eq, n'.history_eq, hprefix.eq_of_length hlength]

namespace Errand

variable {x : Errand} {a : Attempt} {seen log log' : EventLog} {events : List Event} {e : Error}

/-- The attempt `a` was decided for the command when the log was `seen`. -/
structure Decided (x : Errand) (a : Attempt) (seen log : EventLog) : Prop where
  numbered : seen.Numbered
  events : seen.events <+: log.events
  schemas : seen.schemas = log.schemas
  prepare : x.command.prepare x.editor x.time
    (seen.history x.command.stream.kind x.command.stream.id) = .ok a

/-- An attempt that was decided stays so while the log grows. -/
theorem Decided.mono (h : x.Decided a seen log) (events : log.events <+: log'.events)
    (schemas : log'.schemas = log.schemas) : x.Decided a seen log' :=
  ⟨h.numbered, h.events.trans events, h.schemas.trans schemas.symm, h.prepare⟩

/-- **Attempts that are made.** They do what the command does when it is handled on the log that
they are made on. -/
theorem Decided.handle (h : x.Decided a seen log) (n : log.Numbered)
    (ha : a.append log = .ok (events, log')) :
    x.command.handle x.editor x.time log = .ok (a.applied events, log') := by
  obtain ⟨fact, hstream, hexpected, hdrafts⟩ := Command.prepare_cases h.numbered h.prepare
  obtain ⟨-, -, -, hhead⟩ := EventLog.append_cases ha
  rw [hstream, hexpected, hdrafts] at hhead
  have hhistory := h.numbered.history_eq_of_head_eq n h.events
    (hhead.resolve_left (List.cons_ne_nil _ _))
  unfold Command.handle
  rw [hhistory, h.prepare]
  dsimp only
  rw [ha]

/-- **Attempts that are refused.** Either the command would have been refused the same way on the
log that it was decided on, or the stream has moved on since then. -/
theorem Decided.refused (h : x.Decided a seen log) (schemas : log.schemas = some contexts)
    (ha : a.append log = .error e) :
    (e.isConflict = false ∧ x.command.handle x.editor x.time seen = .error e) ∨
      (e.isConflict = true ∧
        log.head x.command.stream.kind x.command.stream.id
          ≠ seen.head x.command.stream.kind x.command.stream.id) := by
  obtain ⟨fact, hstream, hexpected, hdrafts⟩ := Command.prepare_cases h.numbered h.prepare
  rcases EventLog.append_error_cases ha with hvalid | ⟨rfl, hhead⟩
  · have hseen : a.append seen = .error e :=
      EventLog.append_of_invalid (h.schemas ▸ hvalid)
    have hhandle : x.command.handle x.editor x.time seen = .error e := by
      unfold Command.handle
      rw [h.prepare]
      dsimp only
      rw [hseen]
    have howner : (x.command.subject.deed fact).owner.stream = x.command.stream :=
      x.command.subject.owner_deed fact
    have hdraft : validate (some contexts) (x.command.subject.deed fact).owner.stream
        [(x.command.subject.deed fact).draft x.editor x.time] = _ :=
      (x.command.subject.deed fact).validate_draft
    rw [howner, ← schemas, ← hstream, ← hdrafts, hvalid] at hdraft
    split at hdraft
    · cases hdraft
      exact .inl ⟨rfl, hhandle⟩
    · cases hdraft
  · rw [hstream, hexpected] at hhead
    exact .inr ⟨rfl, hhead⟩

end Errand
end Chronicle
