import Chronicle.Loop.Machine
/-!
# Spoolers

A spooler runs one loop per handler of an instance and keeps a board of their statuses. Its loops
can be woken, told to stop, or left without anybody to tell them anything, in which case they end
with the cycle they are in.

* `Runner`: a loop and whether a signal waits for it;
* `Spooler`, `Spooler.start`, `Spooler.wake`, `Spooler.stop`, `Spooler.abandon`;
* **`Runner.move`**: the next move of a loop, which its signals and its calls decide.
-/

namespace Chronicle

/-- A loop, and whether it has been signalled since it last looked. -/
structure Runner (σ : Type) where
  loop : ViewLoop σ
  signalled : Bool := false

/-- What a spooler tells its loops. -/
structure Signals where
  /-- The loops are told to stop. -/
  stop : Bool := false
  /-- Nobody is left to tell the loops anything. -/
  abandoned : Bool := false
deriving DecidableEq

/-- What a loop does next, at an instant. -/
inductive Move where
  /-- Nothing, until time passes or a signal comes. -/
  | idle
  /-- It takes a step, which makes the given call. -/
  | call (c : Call)
  /-- It takes a step that makes no call. -/
  | step
  /-- It leaves its pause for the next cycle, because of a signal. -/
  | rouse
  /-- It leaves its pause for good, because nobody is left. -/
  | leave
deriving DecidableEq

namespace Runner

variable {σ : Type}

/-- The next move of a loop. A signal ends a pause; the absence of anybody to send one ends the
loop when it pauses. -/
def move (r : Runner σ) (signals : Signals) (now : Instant) : Move :=
  match r.loop.phase with
  | .stopped => .idle
  | .crashed => .idle
  | .sleeping wake =>
    if r.signalled then .rouse
    else if signals.abandoned then .leave
    else if wake.nanos ≤ now.nanos then .step else .idle
  | .waiting wake _ _ _ => if wake.nanos ≤ now.nanos then .step else .idle
  | phase =>
    match phase.call? r.loop.handler.view signals.stop with
    | some c => .call c
    | none => .step

/-- The loop has ended. -/
def isOver (r : Runner σ) : Bool := r.loop.phase.isOver

/-- Signals the loop, unless it has ended. -/
def signal (r : Runner σ) : Runner σ :=
  { r with signalled := !r.isOver }

end Runner

/-- The loops of an instance. -/
structure Spooler (σ : Type) where
  runners : List (Runner σ)
  board : Board
  signals : Signals := {}

namespace Spooler

variable {σ : Type}

/-- The spooler without loops. -/
def empty : Spooler σ := ⟨[], Index.empty, {}⟩

/-- A spooler whose loops have not run yet. -/
def start (config : LoopConfig) (handlers : List (Handler σ)) : Spooler σ where
  runners := handlers.map fun h => { loop := { config := config, handler := h } }
  board := handlers.foldl (fun b h => b.register h.view) Index.empty

/-- What is told when loops start. -/
def startNotices (config : LoopConfig) (handlers : List (Handler σ)) : List Notice :=
  handlers.map fun h => .loopStarting h.view config.holder

/-- Whether some loop maintains `view`. -/
def maintains (s : Spooler σ) (view : String) : Bool :=
  s.runners.any fun r => r.loop.handler.view == view

/-- Every loop has ended. -/
def isOver (s : Spooler σ) : Bool := s.runners.all Runner.isOver

/-- The spooler has been told to stop, or has been abandoned. -/
def dismissed (s : Spooler σ) : Bool := s.signals.stop || s.signals.abandoned

/-- Ends every pause, so that each loop starts a cycle. -/
def wake (s : Spooler σ) : Spooler σ :=
  if s.dismissed then s else { s with runners := s.runners.map Runner.signal }

/-- Tells every loop to stop. -/
def stop (s : Spooler σ) : Spooler σ :=
  { s with runners := s.runners.map Runner.signal, signals := { s.signals with stop := true } }

/-- Leaves every loop to itself. -/
def abandon (s : Spooler σ) : Spooler σ :=
  { s with signals := { s.signals with abandoned := true } }

end Spooler
end Chronicle
