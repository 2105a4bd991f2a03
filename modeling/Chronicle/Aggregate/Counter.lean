import Chronicle.Aggregate.Basic
/-!
# Counters

The plainest aggregate: it follows every event on its stream, whatever its type, and adds up the
steps that the payloads carry.

* `Counter.step?`, `Counter.decider`.
-/

namespace Chronicle.Counter

/-- The step of an event: the integer `by` of its payload. -/
def step? (payload : Json) : Option Int :=
  payload.field? "by" >>= Json.asInt64?

/-- How steps are written and read. -/
def codec : Codec Int where
  read _ payload :=
    match step? payload with
    | none => .error (.violation .missingStep)
    | some n => .ok n
  tag _ := "counter.incremented"
  payload n := .obj [("by", .int n)]

/-- The rules of the counter `id`, which takes no commands. -/
def decider (id : String) : Decider Empty Int Int where
  stream := { kind := "counter", id := id, owner := id }
  codec := codec
  initial := 0
  follows _ := true
  apply n total := total + n
  answer := nofun

end Chronicle.Counter
