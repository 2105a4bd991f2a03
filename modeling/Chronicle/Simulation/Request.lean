import Chronicle.Seeding
import Chronicle.Simulation.Surroundings
/-!
# Requests in their surroundings

A request makes calls to the shared storage, each of which may meet a planned fault. What a request
has done before an error stays done.

* `Request`: a computation in surroundings that may end in an error;
* `Request.call`: a call with its fault;
* `Request.append`, `Request.query`, `Request.history`, `Request.renew`, and the calls to the
  watermarks;
* **`Request.command`**, **`Request.ensureDefaults`**, `Request.load`, `Request.commit`.
-/

namespace Chronicle

/-- A computation in surroundings that may end in an error. -/
abbrev Request (α : Type) := ExceptT Error (StateM Surroundings) α

/-- The log after another writer has appended at the head of a stream. -/
def EventLog.race (log : EventLog) (stream : Stream) (drafts : List Draft) :
    Except Error EventLog :=
  (log.append stream (log.head stream.kind stream.id) drafts).map (·.2)

namespace Request

variable {α : Type}

/-- Carries a call out on the shared storage, or meets the fault planned for it. A call that another
writer precedes ends in the error of that writer, if there is one. Only loops are cut off; a request
whose call has that planned is carried out. -/
def call (c : Call) (act : Instant → Shared Stores → Except Error (α × Shared Stores)) :
    Request α := fun s =>
  let (f, s) := s.take c
  let carryOut (shared : Shared Stores) : Except Error α × Surroundings :=
    match act s.now shared with
    | .error e => (.error e, { s with shared := shared })
    | .ok (a, shared) => (.ok a, { s with shared := shared })
  match f with
  | .fail e => (.error e, s)
  | .race stream drafts =>
    match s.shared.log.race stream drafts with
    | .error e => (.error e, s)
    | .ok log => carryOut { s.shared with log := log }
  | .pass => carryOut s.shared
  | .crash => carryOut s.shared

/-- Tells notices. -/
def tell (notices : List Notice) : Request Unit := fun s =>
  (.ok (), s.tell notices)

/-- The present instant. -/
def now : Request Instant := fun s => (.ok s.now, s)

/-- A result that is settled already. -/
def ofExcept (r : Except Error α) : Request α := fun s => (r, s)

/-- A request whose error is a result like any other. -/
def attempt (r : Request α) : Request (Except Error α) := fun s =>
  let (result, s) := r s
  (.ok result, s)

/-! ## The log -/

/-- Appends to a stream. -/
def append (stream : Stream) (expected : Int) (drafts : List Draft) : Request (List Event) :=
  call .append fun _ shared =>
    (shared.log.append stream expected drafts).map fun r => (r.1, { shared with log := r.2 })

/-- The events that a filter admits. -/
def query (f : Filter) : Request (List Event) :=
  call .query fun _ shared => .ok (shared.log.query f, shared)

/-- The stream of an aggregate. -/
def history (kind id : String) : Request (List Event) :=
  call .query fun _ shared => .ok (shared.log.history kind id, shared)

/-! ## Leases and watermarks -/

/-- Takes or prolongs a lease. -/
def renew (holder view : String) (wait : Duration) : Request Unit :=
  call (.renew view) fun now shared =>
    (shared.leases.renew now holder view wait).map fun t => ((), { shared with leases := t })

/-- A question to the watermarks. -/
def askMarks (c : MarkCall) (f : WatermarkTable → α) : Request α :=
  call (.mark c) fun _ shared => .ok (f shared.marks, shared)

/-- A write to the watermarks. -/
def writeMarks (c : MarkCall) (f : Instant → WatermarkTable → WatermarkTable) : Request Unit :=
  call (.mark c) fun now shared => .ok ((), { shared with marks := f now shared.marks })

/-- The position of a view. -/
def currentMark (view : String) : Request Int :=
  askMarks .current fun t => t.current view

/-- Moves a view up. -/
def advanceMark (view : String) (position : Int) : Request Unit :=
  writeMarks .advance fun now t => t.advance now view position

/-- Drops the watermark of a view. -/
def dropMark (view : String) : Request Unit :=
  writeMarks .drop fun _ t => t.drop view

/-- Asks for a view to be built again. -/
def requestReset (view : String) : Request Unit :=
  writeMarks .requestReset fun now t => t.requestReset now view

/-- Whether a view is to be built again. -/
def resetRequested (view : String) : Request Bool :=
  askMarks .resetRequested fun t => t.resetRequested view

/-- All watermarks. -/
def allMarks : Request WatermarkTable :=
  askMarks .all id

/-- Asks for a view of a spooler to be built again. -/
def resetView {σ : Type} (sp : Spooler σ) (view : String) : Request Unit := do
  if sp.maintains view then
    requestReset view
    tell [.resetRequested view]
  else ofExcept (.error (.notFound (.view view)))

/-! ## Commands -/

/-- Handles a command. -/
def command (c : Command) (editor : String) : Request Applied := do
  let events ← history c.stream.kind c.stream.id
  let attempt ← ofExcept (c.prepare editor (← now) events)
  let events ← append attempt.stream attempt.expected attempt.drafts
  let applied := attempt.applied events
  tell [c.notice applied]
  pure applied

/-- Seeds the defaults of an instance, within a budget of steps. -/
def seed (iam : String) : Nat → Seeder → Request Seeder
  | 0, s => pure s
  | budget + 1, s => do
    match s with
    | .reading .. =>
      let events ← attempt (history (Seeder.stream iam).kind (Seeder.stream iam).id)
      let (s, notices) := s.read iam (← now) events
      tell notices
      seed iam budget s
    | .appending _ _ _ a =>
      let result ← attempt (append a.stream a.expected a.drafts)
      let (s, notices) := s.append (result.map fun _ => ())
      tell notices
      seed iam budget s
    | s => pure s

/-- Seeds the defaults of an instance, and gives the number of those it added. -/
def ensureDefaults (iam : String) : Request Nat := do
  match (← seed iam Seeder.stepBound .start).result? with
  | some r => ofExcept r
  | none => pure 0

/-! ## Aggregates in hand -/

/-- Reads a subject from the log. -/
def load (s : Subject) : Request Holding := do
  let events ← history s.stream.kind s.stream.id
  ofExcept (Holding.ofHistory s events)

/-- Appends the pending facts of a holding, if there are any. -/
def commit (h : Holding) : Request (List Event × Holding) := do
  if h.aggregate.pending.isEmpty then pure ([], h)
  else
    let events ← append h.subject.stream h.aggregate.sequence h.drafts
    pure (events, h.settle)

end Request
end Chronicle
