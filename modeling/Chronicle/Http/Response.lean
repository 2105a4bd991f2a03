import Chronicle.Loop.Outcome
import Chronicle.View.Views
import Chronicle.Watermark
/-!
# Responses

A response is a status code and a body, which is JSON, plain text or empty. An error names its kind
and its message in the body.

* `Body`, `Response`, `Response.ofError`;
* `Status.json`: the status of a view;
* `Board.report`: the statuses of all views, with their watermarks.
-/

namespace Chronicle

/-- What a response carries. -/
inductive Body where
  | empty
  | json (v : Json)
  | text (s : String)

/-- A response. -/
structure Response where
  code : Nat
  body : Body := .empty

namespace Error

/-- The status code of an error. -/
def httpCode : Error → Nat
  | .notFound _ => 404
  | .conflict _ _ _ => 409
  | .violation _ => 400
  | .lockHeld _ => 409
  | .infrastructure _ => 500

/-- The name of an error's kind in a body. -/
def httpName : Error → String
  | .notFound _ => "not_found"
  | .conflict _ _ _ => "concurrency_conflict"
  | .violation _ => "constraint_violation"
  | .lockHeld _ => "lock_held"
  | .infrastructure _ => "infrastructure_error"

/-- What is told of an error that is answered: only failures of the server. -/
def httpNotices (e : Error) : List Notice :=
  if 500 ≤ e.httpCode then [.requestFailed e] else []

end Error

namespace Response

/-- A body with the code of success. -/
def ok (body : Json) : Response := ⟨200, .json body⟩

/-- A request that is accepted and carried out later. -/
def accepted : Response := ⟨202, .empty⟩

/-- A path that leads nowhere. -/
def nowhere : Response := ⟨404, .empty⟩

/-- A method that is not answered. -/
def methodNotAllowed : Response := ⟨405, .empty⟩

/-- A path with a parameter whose bytes are not UTF-8. -/
def notText (parameter : String) : Response :=
  ⟨400, .text ("Invalid URL: Invalid UTF-8 in \x60" ++ parameter ++ "\x60")⟩

/-- The answer to a request that ends in an error. -/
def ofError (e : Error) : Response :=
  ⟨e.httpCode, .json (.obj [("error", .str e.httpName), ("message", .str e.message)])⟩

/-- A response without its body, as a method that asks for the head has it. -/
def head (r : Response) : Response := { r with body := .empty }

end Response

/-! ## Statuses of views -/

/-- The fields of a status. -/
def Status.fields (view : String) (s : Status) : List (String × Json) :=
  [("view_model", .str view), ("state", .str s.state.text), ("watermark", .int s.mark),
    ("processed_last_cycle", .ofNat s.processedLastCycle),
    ("processed_total", .ofNat s.processedTotal),
    ("last_error", .ofString? (s.lastError.map Error.message)),
    ("last_cycle_at", .ofString? (s.lastCycleAt.map Instant.rfc3339))]

/-- A status as an object. -/
def Status.json (view : String) (s : Status) : Json :=
  .obj (s.fields view)

/-- The statuses of a board, by view. -/
def Board.json (b : Board) : Json :=
  .arr (b.entries.map fun e => e.2.json e.1)

/-- The status of a view next to its watermark. -/
def Status.report (marks : WatermarkTable) (view : String) (s : Status) : Json :=
  let w := marks.get? view
  .obj (s.fields view ++ [("persisted_watermark", .int (marks.current view)),
    ("persisted_at", .ofString? (w.map fun w => w.movedAt.rfc3339)),
    ("reset_pending", .bool (marks.resetRequested view))])

/-- The statuses of a board next to the watermarks of their views. -/
def Board.report (b : Board) (marks : WatermarkTable) : Json :=
  .arr (b.entries.map fun e => e.2.report marks e.1)

/-- A watermark as an object. -/
def Watermark.json (view : String) (w : Watermark) : Json :=
  .obj [("view_name", .str view), ("position", .int w.position),
    ("updated_at", .str w.movedAt.rfc3339), ("reset_requested", .bool w.resetRequested)]

end Chronicle
