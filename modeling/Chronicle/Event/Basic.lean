import Chronicle.Json.Basic
import Chronicle.Time.Basic
import Chronicle.Uuid
/-!
# Events

An event belongs to the stream of one aggregate. What is handed in is a **draft**; the log turns it
into an event by giving it a sequence within its stream and a position in the whole log.

* `Stream`: the identity of an aggregate;
* `Draft`: an event before it is appended;
* `Event`: an event of the log.
-/

namespace Chronicle

/-- The schema version that every event is written against. -/
def currentVersion : String := "v1"

/-- The identity of an aggregate, whose events form one stream. -/
structure Stream where
  /-- The type of the aggregate. -/
  kind : String
  /-- The identifier, unique within the type. -/
  id : String
  /-- The tenant that the aggregate belongs to. -/
  owner : String
  /-- The schema version of the events. -/
  version : String := currentVersion
deriving DecidableEq, Repr

/-- An event before the log gave it its place. -/
structure Draft where
  uuid : Uuid
  /-- The event type, which says how the payload is read. -/
  tag : String
  payload : Json
  /-- Who caused the event. -/
  editor : String
  time : Instant
deriving Inhabited

/-- An event of the log. -/
structure Event where
  /-- The place in the whole log. -/
  position : Int
  uuid : Uuid
  stream : Stream
  /-- The place in the stream, from one on. -/
  sequence : Int
  /-- The event type, which says how the payload is read. -/
  tag : String
  payload : Json
  /-- Who caused the event. -/
  editor : String
  time : Instant

/-- The event that a draft becomes at its place. -/
def Draft.place (d : Draft) (stream : Stream) (position sequence : Int) : Event where
  position := position
  uuid := d.uuid
  stream := stream
  sequence := sequence
  tag := d.tag
  payload := d.payload
  editor := d.editor
  time := d.time

end Chronicle
