import Chronicle.Proofs.Command.Desk
import Chronicle.Proofs.Command.Refinement
/-!
# Adding a default

A seeder that finds a default absent appends one fact, the one that the command to add it would
append. The append lands if the stream of the instance has not moved on, and then this default is in
effect, while the other is as it was.

* `DefaultPolicy.fact`, `DefaultPolicy.deed`, `DefaultPolicy.slot`: what is added, and where;
* `EventLog.lacks`: the default is not in effect;
* **`DefaultPolicy.prepare_of_load`**: what a seeder decides;
* **`DefaultPolicy.append_attempt`**: what becomes of its append;
* `EventLog.Ready`, `EventLog.Ready.record`: a log on which defaults can be added.
-/

namespace Chronicle

/-! ## Schemas -/

/-- The schemas read the events of the policy context as this context does, whatever else they
read. -/
def SchemaSet.ReadsPolicies (schemas : SchemaSet) : Prop :=
  ∃ before after, schemas = before ++ PolicyEvent.registry.schema :: after ∧
    ∀ schema ∈ before, ∀ tag ∈ PolicyEvent.tags, schema.knows tag = false

theorem SchemaSet.ReadsPolicies.check_payload {schemas : SchemaSet} (h : schemas.ReadsPolicies)
    (e : PolicyEvent) : schemas.check e.tag e.payload = .ok () := by
  obtain ⟨before, after, rfl, hbefore⟩ := h
  obtain ⟨hk, hc⟩ := Registry.schema_of_decode (PolicyEvent.codec_lawful.read_payload e)
  change PolicyEvent.registry.schema.knows e.tag = true at hk
  have hnone : before.find? (fun schema => schema.knows e.tag) = none := by
    refine List.find?_eq_none.2 fun schema hschema => ?_
    rw [hbefore schema hschema e.tag e.tag_mem]
    exact Bool.false_ne_true
  unfold check
  rw [List.find?_append, hnone, Option.none_or, List.find?_cons, hk]
  exact hc

theorem readsPolicies_contexts : contexts.ReadsPolicies :=
  ⟨[], [MemberEvent.registry.schema], rfl, nofun⟩

/-! ## What is added -/

namespace DefaultPolicy

/-- The fact that adds a default. -/
def fact : DefaultPolicy → PolicyEvent
  | lockout => .lockout (.added {})
  | orgIam => .orgIam (.added orgIamSettings)

def deed (p : DefaultPolicy) (iam : String) : Deed := .policy (.iam iam) p.fact

/-- Where a default is held. -/
def slot (p : DefaultPolicy) (iam : String) : Slot :=
  match p with
  | lockout => .lockout (.iam iam)
  | orgIam => .orgIam (.iam iam)

/-- The append that adds a default behind the sequence `n`. -/
def attempt (p : DefaultPolicy) (iam : String) (now : Instant) (n : Int) : Attempt :=
  ⟨Seeder.stream iam, n, [(p.deed iam).draft seedingEditor now], n + 1⟩

end DefaultPolicy

/-- The default is not in effect. -/
def EventLog.lacks (log : EventLog) (iam : String) (p : DefaultPolicy) : Bool :=
  (log.ledger (p.slot iam)).isNone

/-- The last sequence on the stream of an instance. -/
def EventLog.top (log : EventLog) (iam : String) : Int :=
  log.head (Seeder.stream iam).kind (Seeder.stream iam).id

/-- Defaults can be added to the log. -/
structure EventLog.Ready (log : EventLog) (iam : String) : Prop where
  numbered : log.Numbered
  loads : ∀ p : DefaultPolicy, ∃ a, (p.slot iam).subject.decider.load log = .ok a
  checks : ∃ schemas : SchemaSet, log.schemas = some schemas ∧
    ∀ e : PolicyEvent, schemas.check e.tag e.payload = .ok ()

namespace DefaultPolicy

variable {log : EventLog} {iam : String} {now : Instant} {p q : DefaultPolicy}

theorem prepareWith_of_load {S C : Type} [Settings S C] (k : PolicyKind S C) (settings : S)
    (n : log.Numbered) {a : Aggregate (PolicyState S) PolicyEvent}
    (ha : (k.decider (.iam iam)).load log = .ok a) :
    prepareWith k settings iam now
        (log.history (Seeder.stream iam).kind (Seeder.stream iam).id) =
      .ok (if a.state.held.isNone then
        some ⟨Seeder.stream iam, log.top iam,
          [(Deed.policy (.iam iam) (k.wrap (.added settings))).draft seedingEditor now],
          log.top iam + 1⟩ else none) := by
  have hseq : a.sequence = log.top iam := n.sequence_of_load ha
  have hreplay : (k.decider (.iam iam)).replay (k.decider (.iam iam)).fresh
      (log.history (Seeder.stream iam).kind (Seeder.stream iam).id) = .ok a := ha
  have hprepare := Decider.prepare_of_replay hreplay (.add settings) seedingEditor now
  unfold Decider.prepare at hprepare
  unfold prepareWith PolicyState.held
  dsimp only
  rw [hreplay] at hprepare ⊢
  dsimp only at hprepare ⊢
  by_cases hactive : a.state.lifecycle = .active
  · rw [if_pos hactive, if_pos hactive]
    rfl
  · have hanswer : (k.decider (.iam iam)).answer (.add settings) a.state
        = .ok (k.wrap (.added settings)) := by
      change (k.answer _ _ _).map k.wrap = _
      unfold PolicyKind.answer
      dsimp only
      rw [if_neg hactive]
      rfl
    rw [hanswer] at hprepare
    rw [if_neg hactive, if_neg hactive]
    cases hp : (k.decider (.iam iam)).perform a (.add settings) seedingEditor now with
    | error e => simp [hp, Except.map] at hprepare
    | ok a' =>
      rw [hp] at hprepare
      have hattempt := Except.ok.inj hprepare
      change Except.ok (some ((k.decider (.iam iam)).attempt a')) = _
      rw [hattempt, hseq]
      rfl

/-- **Decisions.** A seeder adds a default that is not in effect behind the last event it has
read. -/
theorem prepare_of_load (h : log.Ready iam) (p : DefaultPolicy) (now : Instant) :
    p.prepare iam now (log.history (Seeder.stream iam).kind (Seeder.stream iam).id)
      = .ok (if log.lacks iam p then some (p.attempt iam now (log.top iam)) else none) := by
  obtain ⟨a, ha⟩ := h.loads p
  unfold EventLog.lacks EventLog.ledger
  rw [EventLog.heldBy_of_load ha]
  cases p with
  | lockout => exact prepareWith_of_load lockoutKind {} h.numbered ha
  | orgIam => exact prepareWith_of_load orgIamKind orgIamSettings h.numbered ha

/-- **Appends.** The append of a default lands if the stream has not moved on since the decision,
and is a conflict otherwise. -/
theorem append_attempt (h : log.Ready iam) (hid : Text.allBlank iam = false) (n : Int) :
    (p.attempt iam now n).append log =
      if log.top iam = n then
        .ok ([(p.deed iam).event seedingEditor now (log.events.length + 1) (n + 1)],
          log.record (p.deed iam) seedingEditor now)
      else .error (.conflict iam n (log.top iam)) := by
  obtain ⟨schemas, hschemas, hcheck⟩ := h.checks
  have hvalid : validate log.schemas (Seeder.stream iam) [(p.deed iam).draft seedingEditor now]
      = .ok () := by
    have howner : ¬Text.allBlank (p.deed iam).owner.id = true := Bool.eq_false_iff.1 hid
    have hcheck' : schemas.check (p.deed iam).tag (p.deed iam).payload = .ok () := hcheck p.fact
    have hdraft : validate (some schemas) (p.deed iam).owner.stream
        [(p.deed iam).draft seedingEditor now] = _ := Deed.validate_draft_of_check hcheck'
    rw [if_neg howner] at hdraft
    rw [hschemas]
    exact hdraft
  unfold Attempt.append EventLog.append attempt
  dsimp only
  rw [hvalid]
  dsimp only
  change (if log.top iam = n then _ else _) = _
  by_cases htop : log.top iam = n
  · subst htop
    rw [if_pos rfl, if_pos rfl]
    rfl
  · rw [if_neg htop, if_neg htop]
    rfl

end DefaultPolicy

/-! ## What is there afterwards -/

namespace EventLog

variable {log log' : EventLog} {iam : String} {p q : DefaultPolicy} {now : Instant}

/-- Only the stream of the instance matters. -/
theorem Ready.congr (h : log.Ready iam) (n : log'.Numbered) (schemas : log'.schemas = log.schemas)
    (stream : log'.ofStream (Seeder.stream iam).kind (Seeder.stream iam).id
      = log.ofStream (Seeder.stream iam).kind (Seeder.stream iam).id) :
    log'.Ready iam ∧ (∀ p, log'.lacks iam p = log.lacks iam p) ∧ log'.top iam = log.top iam := by
  have hload (p : DefaultPolicy) :
      (p.slot iam).subject.decider.load log' = (p.slot iam).subject.decider.load log := by
    have hhistory : log'.history (Seeder.stream iam).kind (Seeder.stream iam).id
        = log.history (Seeder.stream iam).kind (Seeder.stream iam).id := by
      rw [n.history_eq, h.numbered.history_eq, stream]
    cases p with
    | lockout => exact congrArg (Decider.replay _ _) hhistory
    | orgIam => exact congrArg (Decider.replay _ _) hhistory
  refine ⟨⟨n, fun p => ?_, ?_⟩, fun p => ?_, ?_⟩
  · rw [hload]
    exact h.loads p
  · rw [schemas]
    exact h.checks
  · unfold lacks ledger heldBy
    rw [hload]
  · unfold top
    rw [n.head_eq, h.numbered.head_eq, stream]

/-- What the aggregates load once a default is added. -/
theorem Ready.load_record (h : log.Ready iam) (p q : DefaultPolicy) (now : Instant) :
    ∃ a, (q.slot iam).subject.decider.load log = .ok a ∧
      (q.slot iam).subject.decider.load (log.record (p.deed iam) seedingEditor now)
        = .ok { a with sequence := a.sequence + 1,
                       state := (q.slot iam).subject.hear (p.deed iam) a.state } := by
  obtain ⟨a, ha⟩ := h.loads q
  have hs : (p.deed iam).owner.stream = (q.slot iam).subject.stream := by
    cases q <;> rfl
  exact ⟨a, ha, h.numbered.load_record ha (congrArg Stream.kind hs) (congrArg Stream.id hs)⟩

/-- The default that was added is in effect, and the other is as it was. -/
theorem Ready.lacks_record (h : log.Ready iam) (p q : DefaultPolicy) (now : Instant) :
    (log.record (p.deed iam) seedingEditor now).lacks iam q
      = (log.lacks iam q && decide (q ≠ p)) := by
  obtain ⟨a, ha, ha'⟩ := h.load_record p q now
  unfold lacks ledger
  rw [heldBy_of_load ha, heldBy_of_load ha']
  cases p <;> cases q <;> first | exact (Bool.and_true _).symm | exact (Bool.and_false _).symm

theorem Ready.ofStream_record (p : DefaultPolicy) (now : Instant) :
    (log.record (p.deed iam) seedingEditor now).ofStream (Seeder.stream iam).kind
        (Seeder.stream iam).id
      = log.ofStream (Seeder.stream iam).kind (Seeder.stream iam).id
        ++ [(p.deed iam).event seedingEditor now (log.events.length + 1) (log.top iam + 1)] := by
  rw [EventLog.ofStream_record]
  exact congrArg (_ ++ ·) filter_place_self

theorem Ready.top_record (h : log.Ready iam) (p : DefaultPolicy) (now : Instant) :
    (log.record (p.deed iam) seedingEditor now).top iam = log.top iam + 1 := by
  unfold top
  rw [h.numbered.record.head_eq, Ready.ofStream_record, List.length_append, h.numbered.head_eq]
  rfl

theorem Ready.record (h : log.Ready iam) (p : DefaultPolicy) (now : Instant) :
    (log.record (p.deed iam) seedingEditor now).Ready iam := by
  refine ⟨h.numbered.record, fun q => ?_, h.checks⟩
  obtain ⟨a, -, ha⟩ := h.load_record p q now
  exact ⟨_, ha⟩

end EventLog
end Chronicle
