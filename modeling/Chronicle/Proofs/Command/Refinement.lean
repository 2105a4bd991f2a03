import Chronicle.Proofs.Command.Answer
/-!
# The log keeps a ledger

The aggregates that load from a log hold a ledger between them, and to handle a command on the log
is to handle it on this ledger: the same commands are refused with the same errors, and what is
carried out changes the same slot in the same way.

* `EventLog.ledger`: what the aggregates hold;
* `EventLog.Kept`: what holds of every log that commands lead to;
* **`Ledger.refines`**: a run of commands on the log and on the ledger.
-/

namespace Chronicle

namespace EventLog

/-- What a subject that is loaded holds of a slot. -/
def heldBy (log : EventLog) (s : Subject) (x : Slot) : Option x.Value :=
  match s.decider.load log with
  | .ok a => s.read a.state x
  | .error _ => none

/-- What the subjects hold that are loaded from a log. -/
def ledger (log : EventLog) : Ledger := fun x => log.heldBy x.subject x

/-- What holds of a log that commands lead to: every subject loads. -/
structure Kept (log : EventLog) : Prop where
  numbered : log.Numbered
  loads : ∀ s : Subject, ∃ a, s.decider.load log = .ok a ∧ s.Fit a.state

end EventLog

/-! ## Logs that are kept -/

theorem Command.subject_slot (c : Command) : c.slot.subject = c.subject := by
  obtain ⟨subject, r⟩ := c
  cases subject <;> rfl

namespace EventLog

variable {log : EventLog} {c : Command} {editor : String} {now : Instant}

theorem load_of_events_eq_nil (h : log.events = []) (s : Subject) :
    s.decider.load log = .ok s.decider.fresh := by
  unfold Decider.load
  rw [(numbered_of_events_eq_nil h).history_eq]
  unfold ofStream
  rw [h]
  rfl

theorem kept_of_events_eq_nil (h : log.events = []) : log.Kept where
  numbered := numbered_of_events_eq_nil h
  loads s := ⟨s.decider.fresh, load_of_events_eq_nil h s, s.fit_initial⟩

theorem heldBy_of_load {s : Subject} {a : Aggregate s.State s.Fact} (h : s.decider.load log = .ok a)
    (x : Slot) : log.heldBy s x = s.read a.state x := by
  unfold heldBy
  rw [h]

theorem ledger_of_events_eq_nil (h : log.events = []) : log.ledger = Ledger.empty := by
  funext x
  unfold ledger
  rw [heldBy_of_load (load_of_events_eq_nil h _)]
  cases x <;> rfl

section record

variable {a : Aggregate c.subject.State c.subject.Fact} {fact : c.subject.Fact}

/-- Once an answer is recorded, the subjects that did not give it load with the state they had. -/
theorem Numbered.load_record_other (n : log.Numbered)
    (hanswer : c.subject.decider.answer c.request a.state = .ok fact) {s : Subject}
    (hne : s ≠ c.subject) {b : Aggregate s.State s.Fact} (hb : s.decider.load log = .ok b) :
    ∃ sequence, s.decider.load (log.record (c.subject.deed fact) editor now)
      = .ok { b with sequence := sequence } := by
  have hstream : (c.subject.deed fact).owner.stream = c.subject.stream :=
    c.subject.owner_deed fact
  by_cases hon : (c.subject.deed fact).owner.stream.kind = s.stream.kind
      ∧ (c.subject.deed fact).owner.stream.id = s.stream.id
  · have hkind : s.stream.kind = c.subject.stream.kind := by rw [← hon.1, hstream]
    have hid : s.stream.id = c.subject.stream.id := by rw [← hon.2, hstream]
    have hear := Subject.hear_of_ne (Command.own_of_answer hanswer) hne hkind hid b.state
    rw [n.load_record hb hon.1 hon.2, hear]
    exact ⟨_, rfl⟩
  · rw [n.load_record_of_ne hon, hb]
    exact ⟨_, rfl⟩

/-- Recording an answer keeps a log, unless the identifier of its owner is blank. -/
theorem Kept.record (h : log.Kept) (ha : c.subject.decider.load log = .ok a)
    (fit : c.subject.Fit a.state)
    (hanswer : c.subject.decider.answer c.request a.state = .ok fact)
    (hid : Text.allBlank (c.subject.deed fact).owner.id = false) :
    (log.record (c.subject.deed fact) editor now).Kept := by
  have hstream : (c.subject.deed fact).owner.stream = c.subject.stream :=
    c.subject.owner_deed fact
  refine ⟨h.numbered.record, fun s => ?_⟩
  by_cases hs : s = c.subject
  · subst hs
    rw [h.numbered.load_record ha (congrArg Stream.kind hstream) (congrArg Stream.id hstream)]
    exact ⟨_, rfl, Command.fit_hear hanswer fit hid⟩
  · obtain ⟨b, hb, hfit⟩ := h.loads s
    obtain ⟨sequence, hload⟩ := h.numbered.load_record_other hanswer hs hb
    exact ⟨_, hload, hfit⟩

/-- Recording an answer changes the slot of the command, and no other. -/
theorem Kept.ledger_record (h : log.Kept) (ha : c.subject.decider.load log = .ok a)
    (hanswer : c.subject.decider.answer c.request a.state = .ok fact) :
    (log.record (c.subject.deed fact) editor now).ledger
      = log.ledger.set c.slot
          (c.subject.read (c.subject.hear (c.subject.deed fact) a.state) c.slot) := by
  have hstream : (c.subject.deed fact).owner.stream = c.subject.stream :=
    c.subject.owner_deed fact
  have hload : c.subject.decider.load (log.record (c.subject.deed fact) editor now) = _ :=
    h.numbered.load_record ha (congrArg Stream.kind hstream) (congrArg Stream.id hstream)
  funext x
  by_cases hx : x = c.slot
  · subst hx
    unfold Ledger.set ledger
    rw [Function.update_self, c.subject_slot, heldBy_of_load hload]
  · unfold Ledger.set
    rw [Function.update_of_ne hx]
    unfold ledger
    by_cases hs : x.subject = c.subject
    · rw [hs, heldBy_of_load hload, heldBy_of_load ha, Command.read_hear_of_ne hanswer hs hx]
    · obtain ⟨b, hb, -⟩ := h.loads x.subject
      obtain ⟨sequence, hb'⟩ := h.numbered.load_record_other hanswer hs hb
      rw [heldBy_of_load hb', heldBy_of_load hb]

end record

theorem allBlank_of_validate {schemas : Option SchemaSet} {stream : Stream} {drafts : List Draft}
    (h : validate schemas stream drafts = .ok ()) : Text.allBlank stream.id = false := by
  unfold validate at h
  by_contra hb
  rw [Bool.not_eq_false] at hb
  rw [if_pos hb] at h
  split at h <;> cases h

/-- A command leaves a log as it is, or an answer is recorded. -/
theorem Kept.land_cases (h : log.Kept) (c : Command) (editor : String) (now : Instant) :
    c.land editor now log = log ∨
      ∃ a fact, c.subject.decider.load log = .ok a ∧ c.subject.Fit a.state ∧
        c.subject.decider.answer c.request a.state = .ok fact ∧
        Text.allBlank (c.subject.deed fact).owner.id = false ∧
        c.land editor now log = log.record (c.subject.deed fact) editor now := by
  obtain ⟨a, ha, fit⟩ := h.loads c.subject
  unfold Command.land
  rw [Command.handle_of_load h.numbered ha]
  cases hanswer : c.subject.decider.answer c.request a.state with
  | error e => exact .inl rfl
  | ok fact =>
    dsimp only
    cases hvalid : validate log.schemas c.stream [(c.subject.deed fact).draft editor now] with
    | error e => exact .inl rfl
    | ok u =>
      refine .inr ⟨a, fact, ha, fit, hanswer, ?_, rfl⟩
      have hstream : (c.subject.deed fact).owner.stream = c.stream := c.subject.owner_deed fact
      have hid := allBlank_of_validate hvalid
      rw [← hstream] at hid
      cases ho : (c.subject.deed fact).owner <;> rw [ho] at hid <;> exact hid

/-- A command keeps a log. -/
theorem Kept.land (h : log.Kept) (c : Command) (editor : String) (now : Instant) :
    (c.land editor now log).Kept := by
  rcases h.land_cases c editor now with hl | ⟨a, fact, ha, fit, hanswer, hid, hl⟩
  · rwa [hl]
  · rw [hl]
    exact h.record ha fit hanswer hid

/-- Behind any run of commands every subject loads. -/
theorem kept_after (h : log.events = []) (errands : List Errand) : (log.after errands).Kept := by
  induction errands using List.reverseRecOn with
  | nil => exact kept_of_events_eq_nil h
  | append_singleton errands x ih =>
    rw [after_concat]
    exact ih.land x.command x.editor x.time

/-- **Commands.** A log that checks the payloads of both contexts takes a command as its ledger
does. -/
theorem Kept.handle (h : log.Kept) (schemas : log.schemas = some contexts) (c : Command)
    (editor : String) (now : Instant) :
    (c.handle editor now log).map (fun r => r.2.ledger) = log.ledger.handle c := by
  obtain ⟨a, ha, fit⟩ := h.loads c.subject
  have hslot : log.ledger c.slot = c.subject.read a.state c.slot := by
    unfold ledger
    rw [c.subject_slot, heldBy_of_load ha]
  unfold Ledger.handle
  rw [hslot, c.settle_of_answer fit, Command.handle_of_load h.numbered ha]
  cases hanswer : c.subject.decider.answer c.request a.state with
  | error e => rfl
  | ok fact =>
    have hvalid : validate log.schemas c.stream [(c.subject.deed fact).draft editor now] =
        if Text.allBlank (c.subject.deed fact).owner.id then .error (.violation (.blank "aggregate id"))
        else .ok () := by
      have hstream : (c.subject.deed fact).owner.stream = c.stream := c.subject.owner_deed fact
      rw [schemas, ← hstream]
      exact (c.subject.deed fact).validate_draft
    dsimp only
    rw [hvalid]
    unfold Subject.settled
    cases hid : Text.allBlank (c.subject.deed fact).owner.id with
    | true => rfl
    | false => exact congrArg Except.ok (h.ledger_record ha hanswer)

/-- Many commands on a log and on its ledger. -/
theorem Kept.after (h : log.Kept) (schemas : log.schemas = some contexts)
    (errands : List Errand) :
    (log.after errands).Kept ∧ (log.after errands).schemas = some contexts ∧
      (log.after errands).ledger = log.ledger.after errands := by
  induction errands generalizing log with
  | nil => exact ⟨h, schemas, rfl⟩
  | cons x rest ih =>
    have hland : (x.command.land x.editor x.time log).ledger = log.ledger.land x.command := by
      unfold Command.land Ledger.land
      rw [← h.handle schemas x.command x.editor x.time]
      cases x.command.handle x.editor x.time log <;> rfl
    obtain ⟨hkept, hschemas, hledger⟩ := ih (h.land x.command x.editor x.time)
      (Command.land_schemas.trans schemas)
    refine ⟨hkept, hschemas, hledger.trans ?_⟩
    rw [hland]
    rfl

end EventLog

/-- **Refinement.** Commands on a log that starts without events do what they do on a ledger that
starts empty. Behind any run of them every subject loads, the subjects hold the ledger that the
commands lead to, and a further command is refused with the error that the ledger gives or leads to
the log of the ledger that it gives; it is carried out exactly if it is allowed. -/
theorem Ledger.refines (errands : List Errand) (c : Command) (editor : String) (now : Instant) :
    (∀ s : Subject, ∃ a, s.decider.load (EventLog.fresh.after errands) = .ok a) ∧
    (EventLog.fresh.after errands).ledger = Ledger.empty.after errands ∧
    (c.handle editor now (EventLog.fresh.after errands)).map (fun r => r.2.ledger)
      = (Ledger.empty.after errands).handle c ∧
    ((∃ r, c.handle editor now (EventLog.fresh.after errands) = .ok r) ↔
      c.Allowed (Ledger.empty.after errands)) := by
  have hfresh : EventLog.fresh.Kept := EventLog.kept_of_events_eq_nil rfl
  obtain ⟨hkept, hschemas, hledger⟩ := hfresh.after rfl errands
  have hempty : EventLog.fresh.ledger = Ledger.empty := EventLog.ledger_of_events_eq_nil rfl
  rw [hempty] at hledger
  have hhandle := hkept.handle hschemas c editor now
  rw [hledger] at hhandle
  refine ⟨fun s => ?_, hledger, hhandle, ?_⟩
  · obtain ⟨a, ha, -⟩ := hkept.loads s
    exact ⟨a, ha⟩
  · rw [← Ledger.handle_ok_iff, ← hhandle]
    cases c.handle editor now (EventLog.fresh.after errands) with
    | error e => simp [Except.map]
    | ok r => simp [Except.map]

end Chronicle
