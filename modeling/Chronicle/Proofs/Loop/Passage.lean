import Chronicle.Proofs.Log.Behind
import Chronicle.Proofs.Loop.Drive
/-!
# A cycle from step to step

A cycle is followed from the renewal it starts with, and the calls that it makes are written down.
Between its steps others may append and write whatever does not concern its watermark. Nothing
hinders it: its reads, its renewals and its recordings succeed, and only a fold may fail.

* `Made`: a call that a cycle made, and what became of it;
* `Passage`, `Passage.start`: a loop in a cycle, with the calls it has made;
* `Beat`, **`Passage.run`**: what may happen to it;
* **`Passage.smooth`**: nothing hinders a cycle;
* `Passage.Since`: what was in the log when the cycle started is in every log that it reads;
* `Passage.beat_paging` and so on: what each step does.
-/

namespace Chronicle

/-- A call that a cycle made, and what became of it. -/
inductive Made where
  /-- It read a page of the log as it was then. -/
  | query (log : EventLog)
  /-- It folded an event, or failed to with an error. -/
  | process (e : Event) (error : Option Error)
  /-- It recorded a position. -/
  | advance (position : Int)

namespace Made

/-- The log of which a page was read. -/
def log? : Made → Option EventLog
  | query log => some log
  | _ => none

/-- The event that was folded. -/
def folded? : Made → Option Event
  | process e none => some e
  | _ => none

/-- The error that a fold failed with. -/
def failed? : Made → Option Error
  | process _ error => error
  | _ => none

end Made

/-- How the cycle has ended, if it has. -/
def Phase.outcome? {σ : Type} : Phase σ → Option Outcome
  | ended o => some o
  | _ => none

theorem Phase.eq_ended_of_outcome? {σ : Type} {phase : Phase σ} {o : Outcome}
    (h : phase.outcome? = some o) : phase = .ended o := by
  cases phase <;> cases h
  rfl

/-- A loop in a cycle, the calls that the cycle has made and the number of its steps. -/
structure Passage (σ : Type) where
  loop : ViewLoop σ
  shared : Shared σ
  made : List Made := []
  steps : Nat := 0

/-- What happens during a cycle. -/
inductive Beat (σ : Type) where
  /-- The loop takes a step at an instant, and `v` is what becomes of its call. -/
  | step (now : Instant) (v : Verdict)
  /-- Somebody tries to append. -/
  | append (a : Attempt)
  /-- Others have written to leases, to watermarks and to views. -/
  | others (leases : LeaseTable) (marks : WatermarkTable) (views : σ)

namespace Passage

variable {σ : Type} (p : Passage σ)

/-- A loop that is about to start a cycle. -/
def start (l : ViewLoop σ) (s : Shared σ) : Passage σ where
  loop := { l with phase := .acquiring }
  shared := s

/-- The logs of which pages were read, in their order. -/
def queried : List EventLog :=
  p.made.filterMap Made.log?

/-- The calls that are not reads of pages. -/
def calls : List Made :=
  p.made.filter fun m => m.log?.isNone

end Passage

/-- The call that a step of a loop brings to an end. A fold ends where it has read, if the call
fails, and else where it has written. -/
def ViewLoop.made? {σ : Type} (v : Verdict) (l : ViewLoop σ) (s : Shared σ) : Option Made :=
  match l.phase with
  | .paging _ => some (.query s.log)
  | .folding _ e _ =>
    match v with
    | .fail err => some (.process e (some err))
    | _ => none
  | .writing _ e _ f => some (.process e f.error)
  | .recording _ e _ => some (.advance e.position)
  | _ => none

/-- Nothing hinders a step: its call succeeds, unless it is a fold; a lease can be renewed; a fold
that waits has waited long enough. A cycle that has ended takes no step. -/
def ViewLoop.smooth {σ : Type} (now : Instant) (v : Verdict) (l : ViewLoop σ) (s : Shared σ) :
    Bool :=
  let renews := (s.leases.renew now l.config.holder l.handler.view l.config.lockWait).isOk
  match l.phase with
  | .acquiring => v = .pass && renews
  | .renewing _ _ _ => v = .pass && renews
  | .waiting wake _ _ _ => v = .pass && decide (wake.nanos ≤ now.nanos)
  | .folding _ _ _ => v ≠ .crash
  | .ended _ => false
  | _ => v = .pass

namespace Passage

variable {σ : Type}

/-- The passage after something happened. -/
def beat (p : Passage σ) : Beat σ → Passage σ
  | .step now v =>
    { loop := (p.loop.step now false v p.shared).loop
      shared := (p.loop.step now false v p.shared).shared
      made := p.made ++ (p.loop.made? v p.shared).toList
      steps := p.steps + 1 }
  | .append a => { p with shared := { p.shared with log := a.land p.shared.log } }
  | .others leases marks views =>
    { p with shared := { log := p.shared.log, leases := leases, marks := marks, views := views } }

/-- The passage after a list of happenings. -/
def run (p : Passage σ) (beats : List (Beat σ)) : Passage σ :=
  beats.foldl beat p

/-- Nothing hinders a cycle: its steps are smooth, and others neither move its watermark nor ask for
its view to be built again. -/
def smooth (p : Passage σ) : List (Beat σ) → Bool
  | [] => true
  | .step now v :: rest => p.loop.smooth now v p.shared && (p.beat (.step now v)).smooth rest
  | .append a :: rest => (p.beat (.append a)).smooth rest
  | .others leases marks views :: rest =>
    marks.current p.loop.handler.view = p.shared.marks.current p.loop.handler.view
      && marks.resetRequested p.loop.handler.view
        == p.shared.marks.resetRequested p.loop.handler.view
      && (p.beat (.others leases marks views)).smooth rest

theorem run_append (p : Passage σ) (beats more : List (Beat σ)) :
    p.run (beats ++ more) = (p.run beats).run more :=
  List.foldl_append ..

theorem smooth_append (p : Passage σ) (beats more : List (Beat σ)) :
    p.smooth (beats ++ more) = (p.smooth beats && (p.run beats).smooth more) := by
  induction beats generalizing p with
  | nil => rfl
  | cons b beats ih =>
    cases b <;> simp only [List.cons_append, smooth, ih, Bool.and_assoc] <;> rfl

/-! ## The logs that are read -/

theorem eq_log_of_made? {l : ViewLoop σ} {s : Shared σ} {v : Verdict} {m : Made} {log : EventLog}
    (h : l.made? v s = some m) (hm : m.log? = some log) : log = s.log := by
  unfold ViewLoop.made? at h
  split at h
  · cases h
    cases hm
    rfl
  · split at h <;> cases h
    cases hm
  · cases h
    cases hm
  · cases h
    cases hm
  · cases h

/-- The log holds `events` and then some, and so did every log of which a page was read. -/
structure Since (events : List Event) (p : Passage σ) : Prop where
  log : events <+: p.shared.log.events
  queried : ∀ log ∈ p.queried, events <+: log.events

theorem Since.beat {events : List Event} {p : Passage σ} (h : p.Since events) (b : Beat σ) :
    (p.beat b).Since events := by
  cases b with
  | step now v =>
    have hlog : (p.beat (.step now v)).shared.log = p.shared.log :=
      (p.loop.step_turn p.shared).log_eq
    refine ⟨hlog ▸ h.log, fun log hmem => ?_⟩
    obtain ⟨m, hm, hread⟩ := List.mem_filterMap.1 hmem
    rcases List.mem_append.1 hm with hm | hm
    · exact h.queried log (List.mem_filterMap.2 ⟨m, hm, hread⟩)
    · rw [eq_log_of_made? (Option.mem_toList.1 hm) hread]
      exact h.log
  | append a => exact ⟨h.log.trans Attempt.prefix_land, h.queried⟩
  | others leases marks views => exact ⟨h.log, h.queried⟩

theorem Since.run {events : List Event} {p : Passage σ} (h : p.Since events)
    (beats : List (Beat σ)) : (p.run beats).Since events := by
  induction beats generalizing p with
  | nil => exact h
  | cons b beats ih => exact ih (h.beat b)

/-! ## What each step does -/

section steps

variable {p : Passage σ} {now : Instant} {c : Cycle} {e : Event} {es : List Event} {g : Page}
  {f : Fold σ} {err : Error} {size : Nat} {leases : LeaseTable}

theorem beat_acquiring (h : p.loop.phase = .acquiring)
    (lease : p.shared.leases.renew now p.loop.config.holder p.loop.handler.view
      p.loop.config.lockWait = .ok leases) :
    p.beat (.step now .pass)
      = ⟨{ p.loop with phase := .checkingReset ⟨now, 0⟩ }, { p.shared with leases := leases },
          p.made, p.steps + 1⟩ := by
  simp [beat, ViewLoop.step_acquiring h lease, ViewLoop.made?, h]

theorem beat_checkingReset (h : p.loop.phase = .checkingReset c)
    (idle : p.shared.marks.resetRequested p.loop.handler.view = false) :
    p.beat (.step now .pass)
      = ⟨{ p.loop with phase := .locating c }, p.shared, p.made, p.steps + 1⟩ := by
  simp [beat, ViewLoop.step_checkingReset h idle, ViewLoop.made?, h]

theorem beat_locating (h : p.loop.phase = .locating c) :
    p.beat (.step now .pass)
      = ⟨{ p.loop with
            mark := p.shared.marks.current p.loop.handler.view
            phase := .paging c }, p.shared, p.made, p.steps + 1⟩ := by
  simp [beat, ViewLoop.step_locating h, ViewLoop.made?, h]

theorem beat_paging (h : p.loop.phase = .paging c) (page : p.shared.log.query p.loop.pageFilter = es) :
    p.beat (.step now .pass)
      = ⟨{ p.loop with phase := .between c ⟨es, es.length⟩ }, p.shared,
          p.made ++ [.query p.shared.log], p.steps + 1⟩ := by
  simp [beat, ViewLoop.step_paging h page, ViewLoop.made?, h]

theorem beat_renewing (h : p.loop.phase = .renewing c e g)
    (lease : p.shared.leases.renew now p.loop.config.holder p.loop.handler.view
      p.loop.config.lockWait = .ok leases) :
    p.beat (.step now .pass)
      = ⟨{ p.loop with phase := p.loop.foldPhase now { c with renewedAt := now } e g },
          { p.shared with leases := leases }, p.made, p.steps + 1⟩ := by
  simp [beat, ViewLoop.step, ViewLoop.made?, ViewLoop.proceed, Verdict.run, h, lease]

theorem beat_waiting {wake : Instant} (h : p.loop.phase = .waiting wake c e g)
    (woken : wake.nanos ≤ now.nanos) :
    p.beat (.step now .pass)
      = ⟨{ p.loop with phase := .folding c e g }, p.shared, p.made, p.steps + 1⟩ := by
  simp [beat, ViewLoop.step, ViewLoop.made?, ViewLoop.proceed, h, woken]

theorem beat_folding (h : p.loop.phase = .folding c e g) :
    p.beat (.step now .pass)
      = ⟨{ p.loop with phase := .writing c e g (p.loop.handler.fold p.shared.views e) }, p.shared,
          p.made, p.steps + 1⟩ := by
  simp [beat, ViewLoop.step_folding h, ViewLoop.made?, h]

theorem beat_refused (h : p.loop.phase = .folding c e g) :
    p.beat (.step now (.fail err))
      = ⟨{ p.loop with phase := .ended (.halted c.processed p.loop.mark err) }, p.shared,
          p.made ++ [.process e (some err)], p.steps + 1⟩ := by
  simp [beat, ViewLoop.step, ViewLoop.made?, ViewLoop.haltAt, ViewLoop.halt, Verdict.run, h]

theorem beat_writing (h : p.loop.phase = .writing c e g f) (ok : f.error = none) :
    p.beat (.step now .pass)
      = ⟨{ p.loop with phase := .recording c e g },
          { p.shared with views := f.write p.shared.views }, p.made ++ [.process e none],
          p.steps + 1⟩ := by
  simp [beat, ViewLoop.step_writing h ok, ViewLoop.made?, h, ok]

theorem beat_spoiled (h : p.loop.phase = .writing c e g f) (failed : f.error = some err) :
    p.beat (.step now .pass)
      = ⟨{ p.loop with phase := .ended (.halted c.processed p.loop.mark err) },
          { p.shared with views := f.write p.shared.views }, p.made ++ [.process e (some err)],
          p.steps + 1⟩ := by
  obtain ⟨notices, hstep⟩ := ViewLoop.step_spoiled now p.shared h failed
  simp [beat, hstep, ViewLoop.made?, h, failed]

theorem beat_recording (h : p.loop.phase = .recording c e g) :
    p.beat (.step now .pass)
      = ⟨{ p.loop with
            mark := e.position
            phase := .between { c with processed := c.processed + 1 } g },
          { p.shared with
            marks := p.shared.marks.advance now p.loop.handler.view e.position },
          p.made ++ [.advance e.position], p.steps + 1⟩ := by
  simp [beat, ViewLoop.step_recording h, ViewLoop.made?, h]

/-- Before an event the loop renews its lease, or waits for the fold, or folds at once. -/
theorem beat_next (h : p.loop.phase = .between c ⟨e :: es, size⟩) (now : Instant) :
    ∃ phase, (phase = .renewing c e ⟨es, size⟩ ∨ phase = p.loop.foldPhase now c e ⟨es, size⟩) ∧
      p.beat (.step now .pass) = ⟨{ p.loop with phase := phase }, p.shared, p.made, p.steps + 1⟩ := by
  by_cases late : p.loop.config.heartbeat.nanos ≤ now.since c.renewedAt
  · refine ⟨_, .inl rfl, ?_⟩
    simp [beat, ViewLoop.step_late h late, ViewLoop.made?, h]
  · refine ⟨_, .inr rfl, ?_⟩
    simp [beat, ViewLoop.step, ViewLoop.turn, ViewLoop.made?, ViewLoop.proceed, h, late]

theorem beat_finished (h : p.loop.phase = .between c ⟨[], size⟩)
    (short : size < p.loop.config.batchSize) :
    p.beat (.step now .pass)
      = ⟨{ p.loop with phase := .ended (.caughtUp c.processed p.loop.mark) }, p.shared, p.made,
          p.steps + 1⟩ := by
  obtain ⟨notices, hstep⟩ := ViewLoop.step_finished now p.shared h short
  simp [beat, hstep, ViewLoop.made?, h]

theorem beat_more (h : p.loop.phase = .between c ⟨[], size⟩)
    (full : ¬size < p.loop.config.batchSize) :
    p.beat (.step now .pass)
      = ⟨{ p.loop with phase := .paging c }, p.shared, p.made, p.steps + 1⟩ := by
  simp [beat, ViewLoop.step, ViewLoop.turn, ViewLoop.made?, ViewLoop.proceed, h, full]

end steps
end Passage
end Chronicle
