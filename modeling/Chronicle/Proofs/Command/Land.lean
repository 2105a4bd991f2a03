import Chronicle.Command
import Chronicle.Proofs.Log.Numbering
/-!
# What an append leaves behind

An attempt to append either lands or leaves the log as it was, and so does a command. Either way
the log has only grown, and is numbered if it was before.

* `Attempt.land`, `Command.land`: the log behind an attempt and behind a command;
* `EventLog.tried`, `EventLog.after`: the log behind many attempts and behind many commands;
* `EventLog.Numbered.land`, `EventLog.Numbered.command`;
* `Attempt.prefix_land`, `Command.prefix_land`.
-/

namespace Chronicle

/-- The log once an attempt was made to append; a refusal leaves it as it is. -/
def Attempt.land (a : Attempt) (log : EventLog) : EventLog :=
  match a.append log with
  | .ok (_, log) => log
  | .error _ => log

/-- The log once a command was handled; a refusal leaves it as it is. -/
def Command.land (c : Command) (editor : String) (at_ : Instant) (log : EventLog) : EventLog :=
  match c.handle editor at_ log with
  | .ok (_, log) => log
  | .error _ => log

/-- The log once attempts were made to append, one after the other. -/
def EventLog.tried (log : EventLog) (attempts : List Attempt) : EventLog :=
  attempts.foldl (fun log a => a.land log) log

/-- A command, with who gives it and when. -/
structure Errand where
  command : Command
  editor : String
  time : Instant

/-- The log once commands were handled, one after the other. -/
def EventLog.after (log : EventLog) (errands : List Errand) : EventLog :=
  errands.foldl (fun log x => x.command.land x.editor x.time log) log

namespace Attempt

variable {a : Attempt} {log : EventLog}

theorem land_of_ok {stored : List Event} {log' : EventLog}
    (h : a.append log = .ok (stored, log')) : a.land log = log' := by
  unfold land
  rw [h]

theorem land_of_error {e : Error} (h : a.append log = .error e) : a.land log = log := by
  unfold land
  rw [h]

/-- The log has only grown. -/
theorem prefix_land : log.events <+: (a.land log).events := by
  cases h : a.append log with
  | error e =>
    exact (land_of_error h).symm ▸ List.prefix_rfl
  | ok r =>
    rw [land_of_ok h]
    obtain ⟨-, -, hlog, -⟩ := EventLog.append_cases h
    rw [hlog]
    exact List.prefix_append ..

theorem land_schemas : (a.land log).schemas = log.schemas := by
  cases h : a.append log with
  | error e => rw [land_of_error h]
  | ok r =>
    rw [land_of_ok h]
    obtain ⟨-, -, hlog, -⟩ := EventLog.append_cases h
    rw [hlog]

end Attempt

/-- An attempt keeps a log numbered. -/
theorem EventLog.Numbered.land {log : EventLog} (n : log.Numbered) (a : Attempt) :
    (a.land log).Numbered := by
  cases h : a.append log with
  | error e => rwa [Attempt.land_of_error h]
  | ok r =>
    rw [Attempt.land_of_ok h]
    exact n.append h

theorem EventLog.Numbered.tried {log : EventLog} (n : log.Numbered) (attempts : List Attempt) :
    (log.tried attempts).Numbered := by
  induction attempts generalizing log with
  | nil => exact n
  | cons a rest ih => exact ih (n.land a)

theorem EventLog.schemas_tried (log : EventLog) (attempts : List Attempt) :
    (log.tried attempts).schemas = log.schemas := by
  induction attempts generalizing log with
  | nil => rfl
  | cons a rest ih => exact (ih (a.land log)).trans Attempt.land_schemas

theorem EventLog.after_concat (log : EventLog) (errands : List Errand) (x : Errand) :
    log.after (errands ++ [x]) = x.command.land x.editor x.time (log.after errands) :=
  List.foldl_append ..

namespace Command

variable {c : Command} {editor : String} {at_ : Instant} {log : EventLog}

/-- A command lands the attempt that it was decided on, or nothing. -/
theorem land_cases (c : Command) :
    c.land editor at_ log = log ∨
      ∃ a, c.prepare editor at_ (log.history c.stream.kind c.stream.id) = .ok a ∧
        c.land editor at_ log = a.land log := by
  unfold land handle
  cases hp : c.prepare editor at_ (log.history c.stream.kind c.stream.id) with
  | error e => exact .inl rfl
  | ok a =>
    refine .inr ⟨a, rfl, ?_⟩
    unfold Attempt.land
    cases h : a.append log <;> simp only [h]

/-- The log has only grown. -/
theorem prefix_land : log.events <+: (c.land editor at_ log).events := by
  rcases c.land_cases with h | ⟨a, -, h⟩
  · exact h.symm ▸ List.prefix_rfl
  · rw [h]
    exact Attempt.prefix_land

end Command

/-- A command leaves the schemas as they are. -/
theorem Command.land_schemas {c : Command} {editor : String} {at_ : Instant} {log : EventLog} :
    (c.land editor at_ log).schemas = log.schemas := by
  rcases c.land_cases with h | ⟨a, -, h⟩
  · rw [h]
  · rw [h]
    exact Attempt.land_schemas

theorem EventLog.schemas_after (log : EventLog) (errands : List Errand) :
    (log.after errands).schemas = log.schemas := by
  induction errands generalizing log with
  | nil => rfl
  | cons x rest ih => exact (ih (x.command.land x.editor x.time log)).trans Command.land_schemas

/-- A command keeps a log numbered. -/
theorem EventLog.Numbered.command {log : EventLog} (n : log.Numbered) (c : Command)
    (editor : String) (at_ : Instant) : (c.land editor at_ log).Numbered := by
  rcases c.land_cases with h | ⟨a, -, h⟩
  · rwa [h]
  · rw [h]
    exact n.land a

end Chronicle
