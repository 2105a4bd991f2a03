import Chronicle.Error
import Chronicle.Index.Basic
import Chronicle.Json.Basic
/-!
# Payload registries

Payloads carry no tag of their own: the event type says how one is read. A registry maps the event
types of one context to readers, so an unknown type is an error and never skipped. A **schema** is
a registry seen by the log, which only checks; several schemas are checked as one.

* `Registry`, `Registry.register`, `Registry.decode`, `Registry.tags`;
* `Schema`, `SchemaSet`, `SchemaSet.knows`, `SchemaSet.check`.
-/

namespace Chronicle

/-- Readers of payloads by event type. -/
abbrev Registry (ε : Type) := Index String (Json → Option ε)

namespace Registry

variable {ε : Type}

/-- Adds a reader for `tag`, in the place of an earlier one. -/
def register (r : Registry ε) (tag : String) (reader : Json → Option ε) : Registry ε :=
  r.insert tag reader

/-- The registry of a table, later rows in the place of earlier ones. -/
def ofTable (rows : List (String × (Json → Option ε))) : Registry ε :=
  rows.foldl (fun r row => register r row.1 row.2) Index.empty

/-- The event types, ascending. -/
def tags (r : Registry ε) : List String :=
  r.keys

/-- Reads `payload` as an event of type `tag`. -/
def decode (r : Registry ε) (tag : String) (payload : Json) : Except Error ε :=
  match r.get? tag with
  | none => .error (.violation (.unknownEventType tag))
  | some reader =>
    match reader payload with
    | none => .error (.violation (.invalidPayload tag))
    | some event => .ok event

end Registry

/-- What the log asks of a registry. -/
structure Schema where
  /-- The event types that the schema decides on. -/
  knows : String → Bool
  /-- Whether a payload is in order. -/
  check : String → Json → Except Error Unit

/-- The checks of a registry. -/
def Registry.schema {ε : Type} (r : Registry ε) : Schema where
  knows tag := r.contains tag
  check tag payload := (Registry.decode r tag payload).map fun _ => ()

/-- Several schemas. The first that knows an event type decides on it. -/
abbrev SchemaSet := List Schema

namespace SchemaSet

/-- Whether some schema knows the event type. -/
def knows (s : SchemaSet) (tag : String) : Bool :=
  s.any fun schema => schema.knows tag

/-- Whether `payload` is in order as an event of type `tag`. -/
def check (s : SchemaSet) (tag : String) (payload : Json) : Except Error Unit :=
  match s.find? fun schema => schema.knows tag with
  | some schema => schema.check tag payload
  | none => .error (.violation (.unknownEventType tag))

end SchemaSet
end Chronicle
