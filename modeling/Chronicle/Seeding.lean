import Chronicle.Command
/-!
# Seeding the default policies

Every instance seeds its two default policies when it starts, so several seeders can race on one
stream. A seeder reads the stream, adds the default unless it is active, and starts over when
another writer came in between, three times at most. Reading and appending are separate steps.

* `DefaultPolicy`: the two defaults, in the order they are seeded;
* `Seeder`: where a seeder stands;
* **`Seeder.read`**, **`Seeder.append`**: its two steps;
* `Seeder.run`: a seeder with no other writer in between.
-/

namespace Chronicle

/-- The editor of seeded events. -/
def seedingEditor : String := "system"

/-- How often a default is tried. -/
def seedingAttempts : Nat := 3

/-- The defaults of an instance. -/
inductive DefaultPolicy where
  | lockout
  | orgIam
deriving DecidableEq, Repr

namespace DefaultPolicy

/-- What a default is called in notices. -/
def text : DefaultPolicy → String
  | .lockout => "lockout"
  | .orgIam => "org iam"

/-- The login settings of a new instance. -/
def orgIamSettings : OrgIamSettings := ⟨true⟩

/-- The append that adds a policy unless it is active, in which case there is none. -/
def prepareWith {S C : Type} [Settings S C] (k : PolicyKind S C) (settings : S) (iam : String)
    (now : Instant) (history : List Event) : Except Error (Option Attempt) :=
  let d := k.decider (.iam iam)
  match d.replay d.fresh history with
  | .error e => .error e
  | .ok a =>
    if a.state.lifecycle = .active then .ok none
    else (d.perform a (.add settings) seedingEditor now).map fun a => some (d.attempt a)

/-- The append that adds a default unless it is active. -/
def prepare (p : DefaultPolicy) (iam : String) (now : Instant) (history : List Event) :
    Except Error (Option Attempt) :=
  match p with
  | .lockout => prepareWith lockoutKind {} iam now history
  | .orgIam => prepareWith orgIamKind orgIamSettings iam now history

end DefaultPolicy

/-- Where a seeder stands. `added` counts the defaults it has added, and `attempt` counts its tries
at the present one. -/
inductive Seeder where
  /-- About to read the stream. -/
  | reading (policy : DefaultPolicy) (attempt added : Nat)
  /-- About to append. -/
  | appending (policy : DefaultPolicy) (attempt added : Nat) (append : Attempt)
  /-- Both defaults are in place. -/
  | finished (added : Nat)
  /-- Given up. -/
  | failed (e : Error)

namespace Seeder

/-- A seeder that has not started. -/
def start : Seeder := .reading .lockout 1 0

/-- The stream of the instance that is seeded. -/
def stream (iam : String) : Stream := (Owner.iam iam).stream

/-- Goes on behind a default that is in place. -/
def next (p : DefaultPolicy) (added : Nat) : Seeder × List Notice :=
  match p with
  | .lockout => (.reading .orgIam 1 added, [])
  | .orgIam => (.finished added, if 0 < added then [.defaultsSeeded added] else [])

/-- The step that reads the stream, or meets an error in doing so. -/
def read (iam : String) (now : Instant) (history : Except Error (List Event)) :
    Seeder → Seeder × List Notice
  | .reading p attempt added =>
    match history with
    | .error e => (.failed e, [])
    | .ok events =>
      match p.prepare iam now events with
      | .error e => (.failed e, [])
      | .ok none =>
        let (s, notices) := next p added
        (s, .defaultPresent p.text :: notices)
      | .ok (some append) => (.appending p attempt added append, [])
  | s => (s, [])

/-- The step that appends, given how that went. -/
def append (result : Except Error Unit) : Seeder → Seeder × List Notice
  | .appending p attempt added _ =>
    match result with
    | .ok () => next p (added + 1)
    | .error (.conflict aggregate expected actual) =>
      if attempt < seedingAttempts then
        (.reading p (attempt + 1) added, [.seedingConflict p.text attempt actual])
      else (.failed (.conflict aggregate expected actual), [])
    | .error e => (.failed e, [])
  | s => (s, [])

/-- One step on a log. -/
def step (iam : String) (now : Instant) (log : EventLog) (s : Seeder) : Seeder × EventLog :=
  match s with
  | .reading .. => ((s.read iam now (.ok (log.history (stream iam).kind (stream iam).id))).1, log)
  | .appending _ _ _ a =>
    match a.append log with
    | .error e => ((s.append (.error e)).1, log)
    | .ok (_, log) => ((s.append (.ok ())).1, log)
  | _ => (s, log)

/-- The number of steps after which every seeder has come to an end: reading and appending, three
times for each of two defaults. -/
def stepBound : Nat := 2 * seedingAttempts * 2

/-- Steps a seeder until it has come to its end. -/
def run (iam : String) (now : Instant) : Nat → EventLog → Seeder → Seeder × EventLog
  | 0, log, s => (s, log)
  | n + 1, log, s =>
    let (s, log) := s.step iam now log
    run iam now n log s

/-- What a seeder that has come to its end reports. -/
def result? : Seeder → Option (Except Error Nat)
  | .finished added => some (.ok added)
  | .failed e => some (.error e)
  | .reading .. => none
  | .appending .. => none

end Seeder
end Chronicle
