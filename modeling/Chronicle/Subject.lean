import Chronicle.Member.Aggregate
import Chronicle.Policy.Aggregate
/-!
# Subjects

Four kinds of aggregates take commands. A subject names one aggregate of one kind, and with it the
requests it takes, the states it has, the facts it records and its rules.

* `Subject`, `Subject.Request`, `Subject.State`, `Subject.Fact`;
* **`Subject.decider`**;
* `Holding`: the aggregate of a subject in hand.
-/

namespace Chronicle

/-- One aggregate that takes commands. -/
inductive Subject where
  /-- The lockout policy of an owner. -/
  | lockout (owner : Owner)
  /-- The login policy of an owner. -/
  | orgIam (owner : Owner)
  /-- One mail text of an instance. -/
  | mailText (iam : String) (key : MailTextKey)
  /-- The members of an instance. -/
  | members (iam : String)
deriving DecidableEq, Repr

namespace Subject

/-- What can be asked of a subject. -/
@[reducible] def Request : Subject → Type
  | lockout _ => PolicyCommand LockoutSettings
  | orgIam _ => PolicyCommand OrgIamSettings
  | mailText _ _ => MailTextCommand
  | members _ => MemberCommand

/-- The states of a subject. -/
@[reducible] def State : Subject → Type
  | lockout _ => PolicyState LockoutSettings
  | orgIam _ => PolicyState OrgIamSettings
  | mailText _ _ => MailTextState
  | members _ => MemberState

/-- The facts that are recorded of a subject. -/
@[reducible] def Fact : Subject → Type
  | lockout _ => PolicyEvent
  | orgIam _ => PolicyEvent
  | mailText _ _ => PolicyEvent
  | members _ => MemberEvent

/-- The rules of a subject. -/
def decider : (s : Subject) → Decider s.Request s.State s.Fact
  | lockout owner => lockoutKind.decider owner
  | orgIam owner => orgIamKind.decider owner
  | mailText iam key => MailText.decider iam key
  | members iam => Members.decider iam

/-- The stream that a subject's facts are recorded on. -/
def stream (s : Subject) : Stream := s.decider.stream

end Subject

/-- The aggregate of a subject in hand. -/
structure Holding where
  subject : Subject
  aggregate : Aggregate subject.State subject.Fact

namespace Holding

/-- A subject without facts. -/
def fresh (s : Subject) : Holding := ⟨s, s.decider.fresh⟩

/-- A subject as a history leaves it. -/
def ofHistory (s : Subject) (history : List Event) : Except Error Holding :=
  (s.decider.replay s.decider.fresh history).map fun a => ⟨s, a⟩

/-- Answers a request; the fact is pending. -/
def perform (h : Holding) (request : h.subject.Request) (editor : String) (now : Instant) :
    Except Error Holding :=
  (h.subject.decider.perform h.aggregate request editor now).map fun a => ⟨h.subject, a⟩

/-- Takes in the pending fact at `i`, which stays pending; there may be none. -/
def applyPending (h : Holding) (i : Nat) : Holding :=
  match h.aggregate.pending[i]? with
  | none => h
  | some p => ⟨h.subject, h.subject.decider.absorb h.aggregate p.sequence p.event⟩

/-- Takes in an event of the log as it is, whatever its type and sequence. -/
def applyEvent (h : Holding) (e : Event) : Except Error Holding :=
  (h.subject.decider.codec.decode e).map fun fact =>
    ⟨h.subject, h.subject.decider.absorb h.aggregate e.sequence fact⟩

/-- Forgets the pending facts. -/
def discard (h : Holding) : Holding :=
  ⟨h.subject, { h.aggregate with pending := [] }⟩

/-- The aggregate once its pending facts are in the log. -/
def settle (h : Holding) : Holding :=
  ⟨h.subject, h.subject.decider.settle h.aggregate⟩

/-- The drafts of the pending facts. -/
def drafts (h : Holding) : List Draft :=
  h.subject.decider.drafts h.aggregate

end Holding
end Chronicle
