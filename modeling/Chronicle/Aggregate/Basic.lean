import Chronicle.Event.Log
/-!
# Aggregates

An aggregate is a state that is the fold of its stream, together with a rule that answers a command
with one event or an error. Several contexts write to one stream; an aggregate passes over the
events it does not follow, but its sequence moves with them, so that its next append expects the
real head of the stream.

* `Codec`: how the events of a context are written as payloads and read back;
* `Decider`: the rules of one aggregate;
* `Aggregate`: its state, and the events decided but not yet appended;
* **`Decider.replay`**, `Decider.perform`, **`Decider.commit`**.
-/

namespace Chronicle

/-- How the events of a context are written and read. -/
structure Codec (ε : Type) where
  /-- Reads the payload of an event of a type. -/
  read : String → Json → Except Error ε
  /-- The event type of an event. -/
  tag : ε → String
  /-- The payload of an event. -/
  payload : ε → Json

/-- Reads an event of the log in its context. -/
def Codec.decode {ε : Type} (c : Codec ε) (e : Event) : Except Error ε :=
  c.read e.tag e.payload

/-- The rules of one aggregate: commands `κ`, states `σ`, events `ε`. -/
structure Decider (κ σ ε : Type) where
  stream : Stream
  codec : Codec ε
  /-- The state of an aggregate without events. -/
  initial : σ
  /-- Whether events of a type are followed; others only move the sequence. -/
  follows : String → Bool
  /-- The state after an event. -/
  apply : ε → σ → σ
  /-- The event that answers a command. -/
  answer : κ → σ → Except Error ε

/-- An event that is decided but not appended. -/
structure Pending (ε : Type) where
  /-- The sequence that the event will have if no other writer comes first. -/
  sequence : Int
  event : ε
  editor : String
  time : Instant

/-- The state of an aggregate after the event with sequence `sequence`, and what is pending. -/
structure Aggregate (σ ε : Type) where
  sequence : Int
  state : σ
  pending : List (Pending ε)

/-- The sequence of the next event. -/
def Aggregate.nextSequence {σ ε : Type} (a : Aggregate σ ε) : Int :=
  a.sequence + a.pending.length + 1

namespace Decider

variable {κ σ ε : Type} (d : Decider κ σ ε)

/-- The aggregate without events. -/
def fresh : Aggregate σ ε := ⟨0, d.initial, []⟩

/-! ## Replay -/

/-- Takes an event in: the state follows it and the sequence becomes the event's. -/
def absorb (a : Aggregate σ ε) (sequence : Int) (event : ε) : Aggregate σ ε :=
  { a with sequence := sequence, state := d.apply event a.state }

/-- Replays one event of the log. It must belong to the aggregate, come next and, if it is followed,
decode; the three are checked in this order. -/
def replayEvent (a : Aggregate σ ε) (e : Event) : Except Error (Aggregate σ ε) :=
  if e.stream.id ≠ d.stream.id then
    .error (.infrastructure (.strayEvent e.uuid e.stream.id d.stream.id))
  else if e.sequence ≠ a.sequence + 1 then
    .error (.infrastructure (.sequenceGap e.stream.id (a.sequence + 1) e.sequence))
  else if d.follows e.tag then
    match d.codec.decode e with
    | .error err => .error err
    | .ok event => .ok (d.absorb a e.sequence event)
  else .ok { a with sequence := e.sequence }

/-- Replays events in order, up to the first that is refused. -/
def replay : Aggregate σ ε → List Event → Except Error (Aggregate σ ε)
  | a, [] => .ok a
  | a, e :: rest =>
    match d.replayEvent a e with
    | .error err => .error err
    | .ok a => replay a rest

/-- The aggregate as its stream in `log` has it. -/
def load (log : EventLog) : Except Error (Aggregate σ ε) :=
  d.replay d.fresh (log.history d.stream.kind d.stream.id)

/-! ## Commands -/

/-- Adds a decided event behind those that are pending. -/
def record (a : Aggregate σ ε) (event : ε) (editor : String) (now : Instant) : Aggregate σ ε :=
  { a with pending := a.pending ++ [⟨a.nextSequence, event, editor, now⟩] }

/-- Answers a command on the state, which pending events have not changed yet. -/
def perform (a : Aggregate σ ε) (command : κ) (editor : String) (now : Instant) :
    Except Error (Aggregate σ ε) :=
  match d.answer command a.state with
  | .error e => .error e
  | .ok event => .ok (record a event editor now)

/-! ## Commit -/

/-- The draft of a pending event. Identifiers are not modelled here: every draft has the nil one,
where a fresh one is drawn at random. An identifier is kept with the event and shown in one refusal
of `Decider.replayEvent`, and decides nothing. -/
def draft (p : Pending ε) : Draft where
  uuid := Uuid.nil
  tag := d.codec.tag p.event
  payload := d.codec.payload p.event
  editor := p.editor
  time := p.time

/-- The drafts of the pending events. -/
def drafts (a : Aggregate σ ε) : List Draft :=
  a.pending.map d.draft

/-- The aggregate once its pending events are in the log. -/
def settle (a : Aggregate σ ε) : Aggregate σ ε :=
  a.pending.foldl (fun a p => d.absorb a p.sequence p.event) { a with pending := [] }

/-- Appends the pending events behind the sequence the aggregate was loaded at. A refused append
leaves aggregate and log as they are. -/
def commit (log : EventLog) (a : Aggregate σ ε) :
    Except Error (List Event × EventLog × Aggregate σ ε) :=
  if a.pending.isEmpty then .ok ([], log, a)
  else
    match log.append d.stream a.sequence (d.drafts a) with
    | .error e => .error e
    | .ok (stored, log) => .ok (stored, log, d.settle a)

end Decider
end Chronicle
