import Chronicle.Proofs.Aggregate.Replay
import Chronicle.Proofs.Codec.Schema
import Chronicle.Proofs.Command.Land
/-!
# What a command records

A command that is carried out puts one fact behind the log, on the stream of its owner. Aggregates
of both contexts read that stream; each takes in the facts it follows and counts the others.

* `Deed`: a fact and the owner on whose stream it is recorded;
* `Subject.hear`: what a deed does to the state of a subject on its stream;
* **`Subject.replayEvent_deed`**: the event of a deed is replayed by every such subject;
* `Deed.validate_draft`: what an append can find wrong with a deed;
* **`Command.handle_of_load`**: a command, from the state it is decided on to the log it leaves.
-/

namespace Chronicle

/-- A fact and the owner on whose stream it is recorded. -/
inductive Deed where
  | policy (owner : Owner) (e : PolicyEvent)
  | member (iam : String) (e : MemberEvent)
deriving DecidableEq

namespace Deed

/-- The owner of the stream. -/
def owner : Deed → Owner
  | policy owner _ => owner
  | member iam _ => .iam iam

/-- The event type. -/
def tag : Deed → String
  | policy _ e => e.tag
  | member _ e => e.tag

def payload : Deed → Json
  | policy _ e => e.payload
  | member _ e => e.payload

/-- The draft of a deed, with the identifier that every decided event has (`Decider.draft`). -/
def draft (d : Deed) (editor : String) (now : Instant) : Draft :=
  ⟨Uuid.nil, d.tag, d.payload, editor, now⟩

/-- The event that a deed becomes. -/
def event (d : Deed) (editor : String) (now : Instant) (position sequence : Int) : Event :=
  (d.draft editor now).place d.owner.stream position sequence

end Deed

namespace Subject

/-- A fact of a subject on the stream of its owner. -/
def deed : (s : Subject) → s.Fact → Deed
  | lockout owner, fact => .policy owner fact
  | orgIam owner, fact => .policy owner fact
  | mailText iam _, fact => .policy (.iam iam) fact
  | members iam, fact => .member iam fact

/-- What a deed does to the state of a subject on its stream. Facts of the other context do
nothing. -/
def hear : (s : Subject) → Deed → s.State → s.State
  | lockout owner, .policy _ e, state => (lockoutKind.decider owner).apply e state
  | orgIam owner, .policy _ e, state => (orgIamKind.decider owner).apply e state
  | mailText _ key, .policy _ e, state => MailText.apply key e state
  | members _, .member _ e, state => Members.apply e state
  | _, _, state => state

theorem owner_deed (s : Subject) (fact : s.Fact) : (s.deed fact).owner.stream = s.stream := by
  cases s <;> rfl

theorem answerDraft_eq (s : Subject) (fact : s.Fact) (sequence : Int) (editor : String)
    (now : Instant) :
    s.decider.answerDraft sequence fact editor now = (s.deed fact).draft editor now := by
  cases s <;> rfl

/-! ## Replaying a deed -/

/-- A policy takes in a fact of its own kind, and others leave it as it is. -/
theorem replayEvent_policy {κ σ : Type} {d : Decider κ σ PolicyEvent}
    {a : Aggregate σ PolicyEvent} (codec : d.codec = PolicyEvent.codec) {owner : Owner}
    {e : PolicyEvent} (id : owner.stream.id = d.stream.id)
    (foreign : d.follows e.tag = false → d.apply e a.state = a.state) (editor : String)
    (now : Instant) (position : Int) :
    d.replayEvent a (Deed.event (.policy owner e) editor now position (a.sequence + 1))
      = .ok { a with sequence := a.sequence + 1, state := d.apply e a.state } := by
  cases hf : d.follows e.tag with
  | false =>
    rw [Decider.replayEvent_of_not_follows id rfl hf, foreign hf]
    rfl
  | true =>
    refine Decider.replayEvent_of_follows id rfl hf ?_
    rw [codec]
    exact PolicyEvent.codec_lawful.read_payload e

/-- The members take in a fact of their own context. -/
theorem replayEvent_member {iam : String} {a : Aggregate MemberState MemberEvent} {e : MemberEvent}
    {iam' : String} (id : iam' = iam) (editor : String) (now : Instant) (position : Int) :
    (Members.decider iam).replayEvent a
        (Deed.event (.member iam' e) editor now position (a.sequence + 1))
      = .ok { a with sequence := a.sequence + 1, state := Members.apply e a.state } := by
  have hf : (Members.decider iam).follows e.tag = true := by
    cases e <;> rfl
  exact Decider.replayEvent_of_follows id rfl hf (MemberEvent.codec_lawful.read_payload e)

theorem apply_of_not_follows_lockout {owner : Owner} {e : PolicyEvent}
    (h : (lockoutKind.decider owner).follows e.tag = false)
    (state : PolicyState LockoutSettings) : (lockoutKind.decider owner).apply e state = state := by
  cases e with
  | lockout e => cases e <;> cases h
  | _ => rfl

theorem apply_of_not_follows_orgIam {owner : Owner} {e : PolicyEvent}
    (h : (orgIamKind.decider owner).follows e.tag = false) (state : PolicyState OrgIamSettings) :
    (orgIamKind.decider owner).apply e state = state := by
  cases e with
  | orgIam e => cases e <;> cases h
  | _ => rfl

theorem apply_of_not_follows_mailText {iam : String} {key : MailTextKey} {e : PolicyEvent}
    (h : (MailText.decider iam key).follows e.tag = false) (state : MailTextState) :
    MailText.apply key e state = state := by
  cases e with
  | mailTextAdded k content => cases h
  | mailTextChanged k change => cases h
  | _ => rfl

/-- **Replay.** The event of a deed is replayed by every subject on its stream, whatever the context
the deed belongs to. -/
theorem replayEvent_deed (s : Subject) (a : Aggregate s.State s.Fact) (d : Deed)
    (id : d.owner.stream.id = s.stream.id) (editor : String) (now : Instant) (position : Int) :
    s.decider.replayEvent a (d.event editor now position (a.sequence + 1))
      = .ok { a with sequence := a.sequence + 1, state := s.hear d a.state } := by
  cases d with
  | policy owner e =>
    cases s with
    | lockout o =>
      exact replayEvent_policy rfl id (fun h => apply_of_not_follows_lockout h _) editor now position
    | orgIam o =>
      exact replayEvent_policy rfl id (fun h => apply_of_not_follows_orgIam h _) editor now position
    | mailText iam key =>
      exact replayEvent_policy rfl id (fun h => apply_of_not_follows_mailText h _) editor now
        position
    | members iam =>
      have hf : (Members.decider iam).follows e.tag = false := by
        rcases e with (_ | _ | _) | (_ | _ | _) | _ | _ <;> rfl
      rw [Decider.replayEvent_of_not_follows id rfl hf]
      rfl
  | member iam' e =>
    cases s with
    | lockout o =>
      have hf : (lockoutKind.decider o).follows e.tag = false := by cases e <;> rfl
      rw [Decider.replayEvent_of_not_follows id rfl hf]
      rfl
    | orgIam o =>
      have hf : (orgIamKind.decider o).follows e.tag = false := by cases e <;> rfl
      rw [Decider.replayEvent_of_not_follows id rfl hf]
      rfl
    | mailText iam key =>
      have hf : (MailText.decider iam key).follows e.tag = false := by cases e <;> rfl
      rw [Decider.replayEvent_of_not_follows id rfl hf]
      rfl
    | members iam => exact replayEvent_member id editor now position

end Subject

/-! ## Checking a deed -/

namespace Deed

variable {editor : String} {now : Instant}

/-- The schemas accept what is written of a deed. -/
theorem check_payload (d : Deed) : contexts.check d.tag d.payload = .ok () := by
  cases d with
  | policy owner e => exact e.check_payload
  | member iam e => exact e.check_payload

theorem allBlank_tag (d : Deed) : Text.allBlank d.tag = false := by
  have hall : ∀ t ∈ PolicyEvent.tags ++ MemberEvent.tags, Text.allBlank t = false := by decide
  cases d with
  | policy owner e => exact hall _ (List.mem_append_left _ e.tag_mem)
  | member iam e => exact hall _ (List.mem_append_right _ e.tag_mem)

theorem allBlank_kind (owner : Owner) : Text.allBlank owner.stream.kind = false := by
  have hkinds : ∀ k ∈ [iamKind, orgKind], Text.allBlank k = false := by decide
  cases owner with
  | iam id => exact hkinds _ List.mem_cons_self
  | org id => exact hkinds _ (List.mem_cons_of_mem _ List.mem_cons_self)

/-- All that an append can find wrong with a deed whose payload the schemas accept is the identifier
of its owner. -/
theorem validate_draft_of_check {schemas : SchemaSet} {d : Deed}
    (h : schemas.check d.tag d.payload = .ok ()) :
    validate (some schemas) d.owner.stream [d.draft editor now] =
      if Text.allBlank d.owner.id then .error (.violation (.blank "aggregate id"))
      else .ok () := by
  have hdraft : (d.draft editor now).validate (some schemas) = .ok () := by
    have htag : ¬Text.allBlank (d.draft editor now).tag = true :=
      Bool.eq_false_iff.1 d.allBlank_tag
    unfold Draft.validate
    rw [if_neg htag]
    exact h
  have hid : d.owner.stream.id = d.owner.id := by
    cases d.owner <;> rfl
  have howner : d.owner.stream.owner = d.owner.id := by
    cases d.owner <;> rfl
  unfold validate
  rw [allBlank_kind, hid, howner, if_neg Bool.false_ne_true]
  by_cases hb : Text.allBlank d.owner.id = true
  · rw [if_pos hb, if_pos hb]
  · rw [if_neg hb, if_neg hb, if_neg hb, Draft.validateAll, hdraft]
    rfl

/-- All that an append can find wrong with a deed is the identifier of its owner. -/
theorem validate_draft (d : Deed) :
    validate (some contexts) d.owner.stream [d.draft editor now] =
      if Text.allBlank d.owner.id then .error (.violation (.blank "aggregate id"))
      else .ok () :=
  validate_draft_of_check d.check_payload

end Deed

/-! ## Recording a deed -/

namespace EventLog

variable {log : EventLog} {s : Subject} {a : Aggregate s.State s.Fact} {d : Deed} {editor : String}
  {now : Instant}

/-- The log with a deed behind it. -/
def record (log : EventLog) (d : Deed) (editor : String) (now : Instant) : EventLog :=
  { log with
    events := log.events ++ place d.owner.stream log.events.length
      (log.head d.owner.stream.kind d.owner.stream.id) [d.draft editor now] }

theorem Numbered.record (n : log.Numbered) : (log.record d editor now).Numbered :=
  n.place (.inr rfl)

theorem ofStream_record (kind id : String) :
    (log.record d editor now).ofStream kind id = log.ofStream kind id
      ++ (place d.owner.stream log.events.length
          (log.head d.owner.stream.kind d.owner.stream.id) [d.draft editor now]).filter
        (onStream kind id) :=
  List.filter_append ..

/-- A deed on another stream leaves a subject as it is. -/
theorem Numbered.load_record_of_ne (n : log.Numbered)
    (h : ¬(d.owner.stream.kind = s.stream.kind ∧ d.owner.stream.id = s.stream.id)) :
    s.decider.load (log.record d editor now) = s.decider.load log := by
  have hhistory : (log.record d editor now).history s.stream.kind s.stream.id
      = log.history s.stream.kind s.stream.id := by
    rw [n.history_eq, n.record.history_eq, ofStream_record, filter_place_of_ne h, List.append_nil]
  exact congrArg (s.decider.replay s.decider.fresh) hhistory

/-- A deed on its stream moves a subject one further. -/
theorem Numbered.load_record (n : log.Numbered) (ha : s.decider.load log = .ok a)
    (kind : d.owner.stream.kind = s.stream.kind) (id : d.owner.stream.id = s.stream.id) :
    s.decider.load (log.record d editor now)
      = .ok { a with sequence := a.sequence + 1, state := s.hear d a.state } := by
  have hseq : a.sequence = log.head s.stream.kind s.stream.id := n.sequence_of_load ha
  have hplace : (log.record d editor now).history s.stream.kind s.stream.id
      = log.history s.stream.kind s.stream.id
        ++ [d.event editor now (log.events.length + 1) (a.sequence + 1)] := by
    rw [n.history_eq, n.record.history_eq, ofStream_record, ← kind, ← id, filter_place_self, kind,
      id, ← hseq]
    rfl
  have hreplay : s.decider.replay s.decider.fresh (log.history s.stream.kind s.stream.id) = .ok a :=
    ha
  unfold Decider.load
  change s.decider.replay _ ((log.record d editor now).history s.stream.kind s.stream.id) = _
  rw [hplace, Decider.replay_concat hreplay]
  exact s.replayEvent_deed a d id editor now _

end EventLog

/-- **Commands.** A command is decided on the state of its subject. Its answer has to pass the checks
of an append, and is then recorded behind the log. -/
theorem Command.handle_of_load {c : Command} {editor : String} {now : Instant} {log : EventLog}
    (n : log.Numbered) {a : Aggregate c.subject.State c.subject.Fact}
    (ha : c.subject.decider.load log = .ok a) :
    c.handle editor now log =
      match c.subject.decider.answer c.request a.state with
      | .error e => .error e
      | .ok fact =>
        match validate log.schemas c.stream [(c.subject.deed fact).draft editor now] with
        | .error e => .error e
        | .ok () =>
          .ok (⟨c.stream.id, a.sequence + 1,
              [(c.subject.deed fact).event editor now (log.events.length + 1) (a.sequence + 1)]⟩,
            log.record (c.subject.deed fact) editor now) := by
  have hseq : log.head c.stream.kind c.stream.id = a.sequence := (n.sequence_of_load ha).symm
  have hprepare : c.prepare editor now (log.history c.stream.kind c.stream.id) = _ :=
    Decider.prepare_of_replay ha c.request editor now
  unfold handle
  rw [hprepare]
  cases c.subject.decider.answer c.request a.state with
  | error e => rfl
  | ok fact =>
    have hdraft := c.subject.answerDraft_eq fact a.sequence editor now
    have hstream : (c.subject.deed fact).owner.stream = c.stream := c.subject.owner_deed fact
    have hevents : EventLog.place c.stream log.events.length a.sequence
          [(c.subject.deed fact).draft editor now]
        = [(c.subject.deed fact).event editor now (log.events.length + 1) (a.sequence + 1)] := by
      rw [← hstream]
      rfl
    have hrecord : log.record (c.subject.deed fact) editor now
        = ⟨log.events ++ [(c.subject.deed fact).event editor now (log.events.length + 1)
            (a.sequence + 1)], log.schemas⟩ := by
      unfold EventLog.record
      rw [hstream, hseq, hevents]
    have happend : log.append c.stream a.sequence [(c.subject.deed fact).draft editor now] =
        match validate log.schemas c.stream [(c.subject.deed fact).draft editor now] with
        | .error e => .error e
        | .ok () =>
          .ok ([(c.subject.deed fact).event editor now (log.events.length + 1) (a.sequence + 1)],
            log.record (c.subject.deed fact) editor now) := by
      rw [hrecord, ← hevents]
      unfold EventLog.append
      simp only [List.isEmpty_cons, hseq, if_true]
      rfl
    dsimp only
    rw [hdraft]
    unfold Attempt.append
    dsimp only
    change log.append c.subject.decider.stream _ _ = _ at happend
    rw [happend]
    cases validate log.schemas c.stream [(c.subject.deed fact).draft editor now] <;> rfl

/-- A command whose answer passes the checks leaves the log with this answer behind it. -/
theorem Command.land_of_answer {c : Command} {editor : String} {now : Instant} {log : EventLog}
    (n : log.Numbered) {a : Aggregate c.subject.State c.subject.Fact} {fact : c.subject.Fact}
    (ha : c.subject.decider.load log = .ok a)
    (hanswer : c.subject.decider.answer c.request a.state = .ok fact)
    (hvalid : validate log.schemas c.stream [(c.subject.deed fact).draft editor now] = .ok ()) :
    c.land editor now log = log.record (c.subject.deed fact) editor now := by
  unfold land
  rw [handle_of_load n ha, hanswer]
  simp only [hvalid]

end Chronicle
