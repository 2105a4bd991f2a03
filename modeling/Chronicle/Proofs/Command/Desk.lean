import Mathlib.Logic.Function.Basic
import Chronicle.Seeding
import Chronicle.Proofs.Command.Deed
/-!
# Callers at one log

Many callers work on one log. A caller with a command reads a stream and decides, and appends later;
a seeder does so for one default after the other, and starts over when it comes too late. Their
turns come in any order, and each is one read or one append.

* `Job`, `Caller`: what a caller has come for and where it stands;
* `Caller.look`, `Caller.told`, `Caller.wants?`: its turns;
* `Desk`, **`Desk.step`**, **`Desk.run`**: the log, the callers, and what has landed so far;
* `Desk.step_cases`: everything that a turn can do;
* **`Desk.alone`**: two turns of a call in a row.
-/

namespace Chronicle

/-- What a caller has come for. -/
inductive Job where
  | command (c : Command) (editor : String)
  /-- The default policies of an instance. -/
  | seed (iam : String)

/-- Where a caller stands. -/
inductive Caller where
  /-- About to read the stream of a command. -/
  | asking (c : Command) (editor : String)
  /-- About to append what was decided. -/
  | decided (x : Errand) (a : Attempt)
  /-- At the end. -/
  | answered (r : Except Error Applied)
  /-- Seeding an instance, whose stream was last read at the instant `asked`. -/
  | seeding (iam : String) (asked : Instant) (s : Seeder)

/-- The command that adds a default. -/
def DefaultPolicy.command (p : DefaultPolicy) (iam : String) : Command :=
  match p with
  | .lockout => ⟨.lockout (.iam iam), .add {}⟩
  | .orgIam => ⟨.orgIam (.iam iam), .add orgIamSettings⟩

namespace Caller

/-- A caller that has just come. -/
def start (now : Instant) : Job → Caller
  | .command c editor => .asking c editor
  | .seed iam => .seeding iam now .start

/-- What a caller is about to append, and the command that it stands for. -/
def wants? : Caller → Option (Errand × Attempt)
  | .decided x a => some (x, a)
  | .seeding iam asked (.appending p _ _ a) => some (⟨p.command iam, seedingEditor, asked⟩, a)
  | _ => none

/-- The turn that reads a stream and decides. -/
def look (now : Instant) (log : EventLog) : Caller → Caller
  | .asking c editor =>
    match c.prepare editor now (log.history c.stream.kind c.stream.id) with
    | .error e => .answered (.error e)
    | .ok a => .decided ⟨c, editor, now⟩ a
  | .seeding iam _ s =>
    .seeding iam now
      (s.read iam now (.ok (log.history (Seeder.stream iam).kind (Seeder.stream iam).id))).1
  | c => c

/-- The turn that appends, given how that went. -/
def told (r : Except Error Applied) : Caller → Caller
  | .decided _ _ => .answered r
  | .seeding iam asked s => .seeding iam asked (s.append (r.map fun _ => ())).1
  | c => c

end Caller

/-- An append that was made: by whom, for which command, and what was given back. -/
structure Landing (ι : Type) where
  who : ι
  errand : Errand
  applied : Applied

/-- Callers at one log, and the appends that were made so far, in their order. -/
structure Desk (ι : Type) where
  callers : ι → Caller
  log : EventLog
  landed : List (Landing ι) := []

namespace Desk

variable {ι : Type} [DecidableEq ι]

/-- Callers that have just come. -/
def start (now : Instant) (log : EventLog) (jobs : ι → Job) : Desk ι where
  callers i := Caller.start now (jobs i)
  log := log

/-- The caller `i` moves, and the log stays as it is. -/
def move (d : Desk ι) (i : ι) (c : Caller) : Desk ι :=
  { d with callers := Function.update d.callers i c }

/-- The caller `i` moves, and its append was made. -/
def land (d : Desk ι) (i : ι) (x : Errand) (r : Applied) (log : EventLog) : Desk ι where
  callers := Function.update d.callers i ((d.callers i).told (.ok r))
  log := log
  landed := d.landed ++ [⟨i, x, r⟩]

/-- The turn of the caller `i` at an instant: it appends if there is something to append, and reads
otherwise. -/
def step (d : Desk ι) (i : ι) (now : Instant) : Desk ι :=
  match (d.callers i).wants? with
  | none => d.move i ((d.callers i).look now d.log)
  | some (x, a) =>
    match a.append d.log with
    | .error e => d.move i ((d.callers i).told (.error e))
    | .ok (events, log) => d.land i x (a.applied events) log

/-- The desk after a list of turns. -/
def run (d : Desk ι) (turns : List (ι × Instant)) : Desk ι :=
  turns.foldl (fun d t => d.step t.1 t.2) d

/-- What a caller has appended. -/
def landedBy (d : Desk ι) (i : ι) : List (Landing ι) :=
  d.landed.filter fun l => l.who = i

theorem run_concat (d : Desk ι) (turns : List (ι × Instant)) (i : ι) (now : Instant) :
    d.run (turns ++ [(i, now)]) = (d.run turns).step i now := by
  unfold run
  rw [List.foldl_append]
  rfl

theorem run_append (d : Desk ι) (turns turns' : List (ι × Instant)) :
    d.run (turns ++ turns') = (d.run turns).run turns' :=
  List.foldl_append ..

@[simp] theorem callers_move_self (d : Desk ι) (i : ι) (c : Caller) :
    (d.move i c).callers i = c :=
  Function.update_self ..

@[simp] theorem callers_land_self (d : Desk ι) (i : ι) (x : Errand) (r : Applied) (log : EventLog) :
    (d.land i x r log).callers i = (d.callers i).told (.ok r) :=
  Function.update_self ..

theorem callers_move_of_ne (d : Desk ι) {i j : ι} (h : j ≠ i) (c : Caller) :
    (d.move i c).callers j = d.callers j :=
  Function.update_of_ne h ..

theorem callers_land_of_ne (d : Desk ι) {i j : ι} (h : j ≠ i) (x : Errand) (r : Applied)
    (log : EventLog) : (d.land i x r log).callers j = d.callers j :=
  Function.update_of_ne h ..

section turn

variable {d : Desk ι} {i : ι} {now : Instant} {x : Errand} {a : Attempt}

theorem step_of_idle (h : (d.callers i).wants? = none) :
    d.step i now = d.move i ((d.callers i).look now d.log) := by
  unfold step
  rw [h]

theorem step_of_refused {e : Error} (h : (d.callers i).wants? = some (x, a))
    (ha : a.append d.log = .error e) :
    d.step i now = d.move i ((d.callers i).told (.error e)) := by
  unfold step
  rw [h]
  simp only [ha]

theorem step_of_landed {events : List Event} {log : EventLog}
    (h : (d.callers i).wants? = some (x, a)) (ha : a.append d.log = .ok (events, log)) :
    d.step i now = d.land i x (a.applied events) log := by
  unfold step
  rw [h]
  simp only [ha]

end turn

/-- **Turns.** A caller reads, or its append is refused, or its append lands. -/
theorem step_cases (d : Desk ι) (i : ι) (now : Instant) :
    ((d.callers i).wants? = none ∧ d.step i now = d.move i ((d.callers i).look now d.log)) ∨
    (∃ x a e, (d.callers i).wants? = some (x, a) ∧ a.append d.log = .error e ∧
      d.step i now = d.move i ((d.callers i).told (.error e))) ∨
    (∃ x a events log, (d.callers i).wants? = some (x, a) ∧ a.append d.log = .ok (events, log) ∧
      d.step i now = d.land i x (a.applied events) log) := by
  cases hw : (d.callers i).wants? with
  | none => exact .inl ⟨rfl, step_of_idle hw⟩
  | some w =>
    obtain ⟨x, a⟩ := w
    cases ha : a.append d.log with
    | error e => exact .inr (.inl ⟨x, a, e, rfl, ha, step_of_refused hw ha⟩)
    | ok r => exact .inr (.inr ⟨x, a, r.1, r.2, rfl, ha, step_of_landed hw ha⟩)

/-- **Alone.** Two turns of a call with no other turn in between handle its command. -/
theorem alone (d : Desk ι) {i : ι} {c : Command} {editor : String}
    (hc : d.callers i = .asking c editor) (now now' : Instant) :
    (d.run [(i, now), (i, now')]).callers i
        = .answered ((c.handle editor now d.log).map (·.1)) ∧
      (d.run [(i, now), (i, now')]).log = c.land editor now d.log := by
  have hidle : (d.callers i).wants? = none := by
    rw [hc]
    rfl
  change ((d.step i now).step i now').callers i = _ ∧ ((d.step i now).step i now').log = _
  rw [step_of_idle hidle, hc, Caller.look]
  unfold Command.land Command.handle
  cases hp : c.prepare editor now (d.log.history c.stream.kind c.stream.id) with
  | error e =>
    dsimp only
    rw [step_of_idle (by rw [callers_move_self]; rfl), callers_move_self, callers_move_self]
    exact ⟨rfl, rfl⟩
  | ok a =>
    dsimp only
    have hwants : ((d.move i (.decided ⟨c, editor, now⟩ a)).callers i).wants?
        = some (⟨c, editor, now⟩, a) := by
      rw [callers_move_self]
      rfl
    cases ha : a.append d.log with
    | error e =>
      rw [step_of_refused hwants ha, callers_move_self, callers_move_self]
      exact ⟨rfl, rfl⟩
    | ok r =>
      rw [step_of_landed hwants ha, callers_land_self, callers_move_self]
      exact ⟨rfl, rfl⟩

end Desk
end Chronicle
