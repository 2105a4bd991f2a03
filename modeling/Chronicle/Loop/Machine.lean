import Chronicle.Lease
import Chronicle.Loop.Call
import Chronicle.Loop.Config
import Chronicle.Loop.Handler
import Chronicle.Loop.Outcome
import Chronicle.Watermark
/-!
# The loop of a view

A loop repeats cycles. A cycle takes the lease, builds the view again if that was asked for, reads
the watermark, and folds page after page of the events behind it. Each fold is followed by its
watermark, and a cycle that lasts renews its lease before the next fold.

The loop is a machine that makes at most one call in a step, so that a cut, a failure or a step of
another loop can come in between any two calls.

* `Shared`: what loops on different instances share;
* `Phase`: where a loop stands, and `Phase.call?`: the call that its next step makes;
* `ViewLoop`, **`ViewLoop.step`**.
-/

namespace Chronicle

/-- What the loops of every instance share. -/
structure Shared (σ : Type) where
  log : EventLog := {}
  leases : LeaseTable := Index.empty
  marks : WatermarkTable := Index.empty
  /-- The storage of the views. -/
  views : σ

/-- What a cycle keeps in mind from page to page. -/
structure Cycle where
  /-- When the lease was last renewed. -/
  renewedAt : Instant
  /-- The number of events folded and recorded. -/
  processed : Nat
deriving DecidableEq

/-- A page that is being folded: the events that are left, and the number it started with. -/
structure Page where
  rest : List Event
  size : Nat

/-- Where a loop stands. -/
inductive Phase (σ : Type) where
  /-- About to start a cycle, or to stop. -/
  | ready
  /-- About to take the lease. -/
  | acquiring
  /-- About to ask whether the view is to be built again. -/
  | checkingReset (c : Cycle)
  /-- About to clear the view. -/
  | clearing (c : Cycle)
  /-- About to drop the watermark of the cleared view. -/
  | dropping (c : Cycle)
  /-- About to read the watermark. -/
  | locating (c : Cycle)
  /-- About to read a page. -/
  | paging (c : Cycle)
  /-- Between two events of a page. -/
  | between (c : Cycle) (p : Page)
  /-- About to renew the lease before an event. -/
  | renewing (c : Cycle) (e : Event) (p : Page)
  /-- Waiting for a slow fold. -/
  | waiting (wake : Instant) (c : Cycle) (e : Event) (p : Page)
  /-- About to read what the fold of an event needs. -/
  | folding (c : Cycle) (e : Event) (p : Page)
  /-- About to write what the fold of an event comes to. -/
  | writing (c : Cycle) (e : Event) (p : Page) (f : Fold σ)
  /-- About to record that an event is folded. -/
  | recording (c : Cycle) (e : Event) (p : Page)
  /-- At the end of a cycle. -/
  | ended (o : Outcome)
  /-- Pausing until an instant. -/
  | sleeping (wake : Instant)
  /-- Stopped in good order. -/
  | stopped
  /-- Cut off in a call. -/
  | crashed

namespace Phase

variable {σ : Type}

/-- The call that the next step makes, if it makes one. A loop that is told to stop reads no
further page. -/
def call? (view : String) (stop : Bool) : Phase σ → Option Call
  | acquiring => some (.renew view)
  | checkingReset _ => some (.mark .resetRequested)
  | clearing _ => some (.clear view)
  | dropping _ => some (.mark .drop)
  | locating _ => some (.mark .current)
  | paging _ => if stop then none else some .query
  | renewing _ _ _ => some (.renew view)
  | folding _ _ _ => some (.process view)
  | recording _ _ _ => some (.mark .advance)
  | _ => none

/-- The loop will never take a step again. -/
def isOver : Phase σ → Bool
  | stopped => true
  | crashed => true
  | _ => false

/-- The instant that the loop waits for, if it waits. -/
def wake? : Phase σ → Option Instant
  | sleeping wake => some wake
  | waiting wake _ _ _ => some wake
  | _ => none

end Phase

/-- A loop on one view. -/
structure ViewLoop (σ : Type) where
  config : LoopConfig
  handler : Handler σ
  /-- The watermark as the loop last saw it. -/
  mark : Int := 0
  backoff : Backoff := none
  phase : Phase σ := .ready

/-- What a step leads to. -/
structure Stepped (σ : Type) where
  loop : ViewLoop σ
  shared : Shared σ
  notices : List Notice := []

namespace ViewLoop

variable {σ : Type}

/-! ## Ends of a cycle -/

/-- What is told when an error ends a cycle. -/
def haltNotices (e : Error) : List Notice :=
  if e.isLockHeld then [.leaseLost] else if e.isTransient then [.backingOff e] else []

/-- Ends the cycle with an error. -/
def halt (l : ViewLoop σ) (s : Shared σ) (processed : Nat) (e : Error) : Stepped σ where
  loop := { l with phase := .ended (.halted processed l.mark e) }
  shared := s
  notices := haltNotices e

/-- Ends the cycle because an event could not be folded. -/
def haltAt (l : ViewLoop σ) (s : Shared σ) (c : Cycle) (e : Event) (err : Error) : Stepped σ :=
  let r := l.halt s c.processed err
  { r with notices := .foldFailed e.position e.tag err :: r.notices }

/-- Ends the cycle with nothing more to fold. -/
def finish (l : ViewLoop σ) (s : Shared σ) (c : Cycle) : Stepped σ where
  loop := { l with phase := .ended (.caughtUp c.processed l.mark) }
  shared := s
  notices := if 0 < c.processed then [.batchFolded c.processed l.mark] else []

/-- Ends the loop in the middle of a call. -/
def cutOff (l : ViewLoop σ) (s : Shared σ) : Stepped σ :=
  ⟨{ l with phase := .crashed }, s, []⟩

/-- Goes on to `phase`. -/
def proceed (l : ViewLoop σ) (s : Shared σ) (phase : Phase σ) : Stepped σ :=
  ⟨{ l with phase := phase }, s, []⟩

/-! ## Parts of a cycle -/

/-- The filter of the next page. -/
def pageFilter (l : ViewLoop σ) : Filter :=
  (l.handler.query.startingAfter l.mark).capped l.config.batchSize

/-- The start of a fold, which a slow handler puts off. -/
def foldPhase (l : ViewLoop σ) (now : Instant) (c : Cycle) (e : Event) (p : Page) : Phase σ :=
  if l.handler.delay.nanos = 0 then .folding c e p else .waiting (now.add l.handler.delay) c e p

/-- Between two events: renew the lease if it is time to, or fold the next event. Behind the last
event of a full page comes another page. -/
def turn (l : ViewLoop σ) (s : Shared σ) (now : Instant) (c : Cycle) (p : Page) : Stepped σ :=
  match p.rest with
  | [] => if p.size < l.config.batchSize then l.finish s c else l.proceed s (.paging c)
  | e :: rest =>
    let p := { p with rest := rest }
    if l.config.heartbeat.nanos ≤ now.since c.renewedAt then l.proceed s (.renewing c e p)
    else l.proceed s (l.foldPhase now c e p)

/-- The lease at the start of a cycle. A lease held elsewhere is no error here. -/
def acquire (l : ViewLoop σ) (s : Shared σ) (now : Instant) (v : Verdict) : Stepped σ :=
  match v.run (s.leases.renew now l.config.holder l.handler.view l.config.lockWait) with
  | none => l.cutOff s
  | some (.error (.lockHeld _)) =>
    { loop := { l with phase := .ended .lockHeld }, shared := s, notices := [.standingBy] }
  | some (.error e) => l.halt s 0 e
  | some (.ok leases) => l.proceed { s with leases := leases } (.checkingReset ⟨now, 0⟩)

/-- The end of a cycle: the loop pauses. -/
def rest (l : ViewLoop σ) (now : Instant) (o : Outcome) : ViewLoop σ :=
  let (pause, backoff) := l.backoff.after l.handler.cycle l.config.maxBackoff o
  { l with backoff := backoff, phase := .sleeping (now.add pause) }

/-! ## The step -/

/-- One step at the instant `now`. `stop` is whether the loop is told to stop, and `v` is what
becomes of the call that the step makes, if it makes one. -/
def step (now : Instant) (stop : Bool) (v : Verdict) (l : ViewLoop σ) (s : Shared σ) :
    Stepped σ :=
  match l.phase with
  | .ready =>
    if stop then
      { loop := { l with phase := .stopped }, shared := s,
        notices := [.loopStopped l.handler.view] }
    else l.proceed s .acquiring
  | .acquiring => l.acquire s now v
  | .checkingReset c =>
    match v.run (.ok (s.marks.resetRequested l.handler.view)) with
    | none => l.cutOff s
    | some (.error e) => l.halt s 0 e
    | some (.ok true) => l.proceed s (.clearing c)
    | some (.ok false) => l.proceed s (.locating c)
  | .clearing c =>
    match v.run (.ok (l.handler.clear s.views)) with
    | none => l.cutOff s
    | some (.error e) => l.halt s 0 e
    | some (.ok views) => l.proceed { s with views := views } (.dropping c)
  | .dropping c =>
    match v.run (.ok (s.marks.drop l.handler.view)) with
    | none => l.cutOff s
    | some (.error e) => l.halt s 0 e
    | some (.ok marks) =>
      { loop := { l with mark := 0, phase := .locating c }, shared := { s with marks := marks },
        notices := [.viewCleared] }
  | .locating c =>
    match v.run (.ok (s.marks.current l.handler.view)) with
    | none => l.cutOff s
    | some (.error e) => l.halt s 0 e
    | some (.ok mark) => ⟨{ l with mark := mark, phase := .paging c }, s, []⟩
  | .paging c =>
    if stop then l.finish s c
    else
      match v.run (.ok (s.log.query l.pageFilter)) with
      | none => l.cutOff s
      | some (.error e) => l.halt s c.processed e
      | some (.ok events) => l.proceed s (.between c ⟨events, events.length⟩)
  | .between c p => l.turn s now c p
  | .renewing c e p =>
    match v.run (s.leases.renew now l.config.holder l.handler.view l.config.lockWait) with
    | none => l.cutOff s
    | some (.error err) => l.halt s c.processed err
    | some (.ok leases) =>
      let c := { c with renewedAt := now }
      l.proceed { s with leases := leases } (l.foldPhase now c e p)
  | .waiting wake c e p =>
    if wake.nanos ≤ now.nanos then l.proceed s (.folding c e p) else ⟨l, s, []⟩
  | .folding c e p =>
    match v.run (.ok (l.handler.fold s.views e)) with
    | none => l.cutOff s
    | some (.error err) => l.haltAt s c e err
    | some (.ok f) => { l.proceed s (.writing c e p f) with notices := f.notices }
  | .writing c e p f =>
    let s := { s with views := f.write s.views }
    match f.error with
    | some err => l.haltAt s c e err
    | none => l.proceed s (.recording c e p)
  | .recording c e p =>
    match v.run (.ok (s.marks.advance now l.handler.view e.position)) with
    | none => l.cutOff s
    | some (.error err) => l.halt s c.processed err
    | some (.ok marks) =>
      { loop := { l with
          mark := e.position, phase := .between { c with processed := c.processed + 1 } p },
        shared := { s with marks := marks } }
  | .ended o => ⟨l.rest now o, s, []⟩
  | .sleeping wake => if wake.nanos ≤ now.nanos then l.proceed s .ready else ⟨l, s, []⟩
  | .stopped => ⟨l, s, []⟩
  | .crashed => ⟨l, s, []⟩

end ViewLoop
end Chronicle
