import Chronicle.Error
import Chronicle.Index.Basic
import Chronicle.Time.Basic
/-!
# Outcomes, pauses and statuses

A cycle ends in one of three ways. The outcome decides how long the loop pauses, and is published on
a board where each view has a status.

* `Outcome`;
* **`Backoff.after`**: the pause after an outcome;
* `ViewState`, `Status`, `Board`, `Board.publish`.
-/

namespace Chronicle

/-- How a cycle ended. -/
inductive Outcome where
  /-- Another holder has the lease; nothing was read. -/
  | lockHeld
  /-- There was nothing more to fold. -/
  | caughtUp (processed : Nat) (mark : Int)
  /-- An error ended the cycle behind the event at `mark`. -/
  | halted (processed : Nat) (mark : Int) (error : Error)
deriving DecidableEq

/-! ## Pauses -/

/-- The last pause of a streak of transient failures; none outside a streak. -/
abbrev Backoff := Option Duration

namespace Backoff

/-- The pause that follows on a streak: the cycle time first, then twice the last pause up to
`ceiling`, and never less than the cycle time. -/
def next (cycle ceiling : Duration) : Backoff → Duration
  | none => cycle
  | some last => Duration.max (Duration.min last.double ceiling) cycle

/-- The pause after an outcome, and the streak it leaves. -/
def after (cycle ceiling : Duration) (b : Backoff) : Outcome → Duration × Backoff
  | .halted _ _ error =>
    if error.isTransient then
      let pause := next cycle ceiling b
      (pause, some pause)
    else (cycle, none)
  | _ => (cycle, none)

end Backoff

/-! ## Statuses -/

/-- Where a view stands. -/
inductive ViewState where
  /-- No cycle has ended yet. -/
  | starting
  /-- Another holder has the lease. -/
  | standby
  /-- Everything is folded. -/
  | caughtUp
  /-- The last cycle ended in an error. -/
  | stalled
deriving DecidableEq, Repr

/-- The name of a view state. -/
def ViewState.text : ViewState → String
  | .starting => "starting"
  | .standby => "standby"
  | .caughtUp => "caught_up"
  | .stalled => "stalled"

/-- What is known of a view from the cycles of a loop. -/
structure Status where
  state : ViewState := .starting
  mark : Int := 0
  processedLastCycle : Nat := 0
  processedTotal : Nat := 0
  lastError : Option Error := none
  lastCycleAt : Option Instant := none
deriving DecidableEq

/-- The status after a cycle that ended at `now`. -/
def Status.after (now : Instant) (s : Status) : Outcome → Status
  | .lockHeld =>
    { s with state := .standby, processedLastCycle := 0, lastCycleAt := some now }
  | .caughtUp processed mark =>
    { state := .caughtUp, mark := mark, processedLastCycle := processed,
      processedTotal := s.processedTotal + processed, lastError := none, lastCycleAt := some now }
  | .halted processed mark error =>
    { state := if error.isLockHeld then .standby else .stalled, mark := mark,
      processedLastCycle := processed, processedTotal := s.processedTotal + processed,
      lastError := some error, lastCycleAt := some now }

/-- The statuses of the views of one instance. -/
abbrev Board := Index String Status

namespace Board

/-- Gives a view its first status, unless it has one. -/
def register (b : Board) (view : String) : Board :=
  if b.contains view then b else b.insert view {}

/-- Publishes the outcome of a cycle. -/
def publish (b : Board) (now : Instant) (view : String) (o : Outcome) : Board :=
  b.insert view (((b.get? view).getD {}).after now o)

end Board
end Chronicle
