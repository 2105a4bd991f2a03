import Chronicle.Event.Filter
import Chronicle.Event.Registry
import Chronicle.Text.Blank
/-!
# The event log

The log holds events in the order they were appended. An append names the sequence its caller last
saw on the stream; if the stream has moved on, nothing is appended. Validation comes before that
comparison, and an append of nothing changes nothing.

* `validate`: the checks every append starts with;
* `EventLog`, `EventLog.head`: the log and the last sequence of a stream;
* **`EventLog.append`**: all drafts or none;
* `EventLog.query`, `EventLog.history`.
-/

namespace Chronicle

/-- Checks one draft: a type that is not blank and a payload that the schemas accept. -/
def Draft.validate (schemas : Option SchemaSet) (d : Draft) : Except Error Unit :=
  if Text.allBlank d.tag then .error (.violation (.blank "event type"))
  else
    match schemas with
    | none => .ok ()
    | some schemas => schemas.check d.tag d.payload

/-- Checks drafts from the first on, up to the first that fails. -/
def Draft.validateAll (schemas : Option SchemaSet) : List Draft → Except Error Unit
  | [] => .ok ()
  | d :: rest =>
    match d.validate schemas with
    | .error e => .error e
    | .ok () => validateAll schemas rest

/-- Checks an append: the identity of the stream first, then every draft in turn. -/
def validate (schemas : Option SchemaSet) (stream : Stream) (drafts : List Draft) :
    Except Error Unit :=
  if Text.allBlank stream.kind then .error (.violation (.blank "aggregate type"))
  else if Text.allBlank stream.id then .error (.violation (.blank "aggregate id"))
  else if Text.allBlank stream.owner then .error (.violation (.blank "resource owner"))
  else Draft.validateAll schemas drafts

/-- An append-only log, and the schemas its payloads have to meet. -/
structure EventLog where
  events : List Event := []
  schemas : Option SchemaSet := none

namespace EventLog

/-- The log without events that checks no payloads. -/
def empty : EventLog := {}

/-- Whether `e` belongs to the stream of the aggregate `id` of type `kind`. -/
def onStream (kind id : String) (e : Event) : Bool :=
  e.stream.kind == kind && e.stream.id == id

/-- The greatest sequence on a stream, zero if it has no events. -/
def head (log : EventLog) (kind id : String) : Int :=
  match (log.events.filter (onStream kind id)).map (·.sequence) with
  | [] => 0
  | s :: rest => rest.foldl (fun a b => if a < b then b else a) s

/-- The events that drafts become behind `count` events of the log and `sequence` of the stream. -/
def place (stream : Stream) : Int → Int → List Draft → List Event
  | _, _, [] => []
  | count, sequence, d :: rest =>
    d.place stream (count + 1) (sequence + 1) :: place stream (count + 1) (sequence + 1) rest

/-- Appends `drafts` to `stream`, whose last sequence has to be `expected`. Gives the new events and
the log with them. -/
def append (log : EventLog) (stream : Stream) (expected : Int) (drafts : List Draft) :
    Except Error (List Event × EventLog) :=
  match validate log.schemas stream drafts with
  | .error e => .error e
  | .ok () =>
    if drafts.isEmpty then .ok ([], log)
    else
      let actual := log.head stream.kind stream.id
      if actual = expected then
        let stored := place stream log.events.length expected drafts
        .ok (stored, { log with events := log.events ++ stored })
      else .error (.conflict stream.id expected actual)

/-- The events that `f` admits, up to its cap, in ascending position. -/
def query (log : EventLog) (f : Filter) : List Event :=
  f.page log.events

/-- The stream of the aggregate `id` of type `kind`, in ascending sequence. -/
def history (log : EventLog) (kind id : String) : List Event :=
  (log.query (Filter.ofStream kind id)).mergeSort fun a b => decide (a.sequence ≤ b.sequence)

end EventLog
end Chronicle
