import Chronicle.Notice
import Chronicle.Subject
/-!
# Commands

A command is handled in two steps on the log. The first reads the stream, replays the aggregate and
decides; it yields an **attempt**, which names the sequence it was decided at. The second appends
the attempt, and fails if the stream has moved on in between.

* `Attempt`, `Decider.prepare`: what a decision wants to append;
* `Command`: a request to a subject;
* **`Command.prepare`**, `Attempt.append`, `Command.handle`.
-/

namespace Chronicle

/-- An append that was decided on and not yet made. -/
structure Attempt where
  stream : Stream
  /-- The sequence that the decision was made at. -/
  expected : Int
  drafts : List Draft
  /-- The sequence of the aggregate once the append is made. -/
  reached : Int

/-- What a command that was carried out has added. -/
structure Applied where
  id : String
  sequence : Int
  events : List Event

namespace Attempt

/-- Appends the attempt. -/
def append (a : Attempt) (log : EventLog) : Except Error (List Event × EventLog) :=
  log.append a.stream a.expected a.drafts

/-- The answer to a command whose attempt became `events`. -/
def applied (a : Attempt) (events : List Event) : Applied :=
  ⟨a.stream.id, a.reached, events⟩

end Attempt

/-- The attempt that appends the pending events of an aggregate. -/
def Decider.attempt {κ σ ε : Type} (d : Decider κ σ ε) (a : Aggregate σ ε) : Attempt :=
  ⟨d.stream, a.sequence, d.drafts a, (d.settle a).sequence⟩

/-- Decides on a command, given the history of the stream. -/
def Decider.prepare {κ σ ε : Type} (d : Decider κ σ ε) (command : κ) (editor : String)
    (now : Instant) (history : List Event) : Except Error Attempt :=
  match d.replay d.fresh history with
  | .error e => .error e
  | .ok a => (d.perform a command editor now).map d.attempt

/-- A request to a subject. -/
structure Command where
  subject : Subject
  request : subject.Request

namespace Command

/-- The last part of the name of a request to a policy. -/
def policyVerb {S : Type} : PolicyCommand S → String
  | .add _ => "add"
  | .change _ => "change"
  | .remove => "remove"

/-- The last part of the name of a request to a mail text. -/
def mailTextVerb : MailTextCommand → String
  | .add _ => "add"
  | .change _ => "change"

/-- The last part of the name of a request to the members. -/
def memberVerb : MemberCommand → String
  | .add _ _ => "add"
  | .change _ _ => "change"
  | .remove _ => "remove"

/-- The name of a command. -/
def name : Command → String
  | ⟨.lockout _, r⟩ => "policy.lockout." ++ policyVerb r
  | ⟨.orgIam _, r⟩ => "policy.org_iam." ++ policyVerb r
  | ⟨.mailText _ _, r⟩ => "policy.mail_text." ++ mailTextVerb r
  | ⟨.members _, r⟩ => "iam.member." ++ memberVerb r

/-- The stream that a command is decided on. -/
def stream (c : Command) : Stream := c.subject.stream

/-- Decides on a command, given the history of its stream. -/
def prepare (c : Command) (editor : String) (now : Instant) (history : List Event) :
    Except Error Attempt :=
  c.subject.decider.prepare c.request editor now history

/-- What is told of a command that was carried out. -/
def notice (c : Command) (a : Applied) : Notice :=
  match c.subject with
  | .members _ => .memberApplied c.name a.id a.sequence
  | _ => .policyApplied c.name a.id a.sequence

/-- Handles a command with no other writer in between. -/
def handle (c : Command) (editor : String) (now : Instant) (log : EventLog) :
    Except Error (Applied × EventLog) :=
  match c.prepare editor now (log.history c.stream.kind c.stream.id) with
  | .error e => .error e
  | .ok attempt =>
    match attempt.append log with
    | .error e => .error e
    | .ok (events, log) => .ok (attempt.applied events, log)

end Command
end Chronicle
