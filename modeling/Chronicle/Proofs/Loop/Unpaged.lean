import Chronicle.Proofs.Loop.Passage
/-!
# A cycle is an unpaged fold

A cycle reads its events in pages, from a log that grows in the meantime, and folds them one by one.
If nothing hinders it, the pages cannot be seen: the cycle does what a fold would do that has all
events before it that are behind the watermark in the log as it was last read.

* `Unpaged`: a fold without pages, with the calls it makes and the outcome it has;
* `Passage.OnPage`, `Passage.Stage`: where a cycle stands with its page and among its calls;
* `Course`, `Course.step`: the invariant, and what one step makes of it;
* `Passage.Completed`: what is said of a cycle that has ended;
* **`Passage.completed_of_smooth`**.
-/

namespace Chronicle

/-! ## The unpaged fold -/

/-- The calls that fold events and record each before the next. -/
def Made.recorded (done : List Event) : List Made :=
  done.flatMap fun e => [.process e none, .advance e.position]

theorem Made.recorded_concat (done : List Event) (e : Event) :
    recorded (done ++ [e]) = recorded done ++ [.process e none] ++ [.advance e.position] := by
  simp [recorded]

theorem Made.filterMap_recorded (done : List Event) :
    (recorded done).filterMap folded? = done := by
  induction done with
  | nil => rfl
  | cons e done ih => exact congrArg (e :: ·) ih

section recorded

variable (e : Event) (calls : List Made)

theorem Made.folded?_recorded :
    (process e none :: advance e.position :: calls).filterMap folded?
      = e :: calls.filterMap folded? :=
  rfl

theorem Made.failed?_recorded :
    (process e none :: advance e.position :: calls).filterMap failed? = calls.filterMap failed? :=
  rfl

end recorded

/-- The number of events that a cycle folded and the watermark that it ended at, if it was one. -/
def Outcome.report? : Outcome → Option (Nat × Int)
  | .lockHeld => none
  | .caughtUp processed mark => some (processed, mark)
  | .halted processed mark _ => some (processed, mark)

/-- The fold of all of `es`, up to the first that fails, from the watermark `w` on and behind `n`
events: the calls that it makes and the outcome that it has. -/
inductive Unpaged : Int → Nat → List Event → List Made → Outcome → Prop where
  /-- There is nothing more to fold. -/
  | finish (w : Int) (n : Nat) : Unpaged w n [] [] (.caughtUp n w)
  /-- The next event cannot be folded. -/
  | fail (w : Int) (n : Nat) (e : Event) (rest : List Event) (err : Error) :
      Unpaged w n (e :: rest) [.process e (some err)] (.halted n w err)
  /-- The next event is folded and recorded. -/
  | fold {w : Int} {n : Nat} {e : Event} {rest : List Event} {calls : List Made} {o : Outcome}
      (h : Unpaged e.position (n + 1) rest calls o) :
      Unpaged w n (e :: rest) (.process e none :: .advance e.position :: calls) o

namespace Unpaged

variable {w : Int} {n : Nat} {es rest done : List Event} {calls : List Made} {o : Outcome}

/-- Events that are done come first. -/
theorem behind (h : Unpaged (markBehind w done) (n + done.length) rest calls o) :
    Unpaged w n (done ++ rest) (Made.recorded done ++ calls) o := by
  induction done generalizing w n with
  | nil => exact h
  | cons e done ih =>
    rw [markBehind_cons, List.length_cons, Nat.add_comm done.length, ← Nat.add_assoc] at h
    exact .fold (ih h)

/-- The outcome reports what was folded. -/
theorem report?_eq (h : Unpaged w n es calls o) :
    o.report? = some (n + (calls.filterMap Made.folded?).length,
      markBehind w (calls.filterMap Made.folded?)) := by
  induction h with
  | finish w n => rfl
  | fail w n e rest err => rfl
  | @fold w n e rest calls o h ih =>
    rw [ih, Made.folded?_recorded, markBehind_cons, List.length_cons, Nat.add_right_comm,
      Nat.add_assoc]

/-- The fold catches up exactly if no event fails. -/
theorem caughtUp_iff (h : Unpaged w n es calls o) :
    (∃ m mark, o = .caughtUp m mark) ↔ calls.filterMap Made.failed? = [] := by
  induction h with
  | finish w n => simp
  | fail w n e rest err => simp [Made.failed?]
  | fold h ih => rwa [Made.failed?_recorded]

/-- If no event fails, all are folded. -/
theorem folded_eq (h : Unpaged w n es calls o) (hf : calls.filterMap Made.failed? = []) :
    calls.filterMap Made.folded? = es := by
  induction h with
  | finish w n => rfl
  | fail w n e rest err => simp [Made.failed?] at hf
  | fold h ih =>
    rw [Made.failed?_recorded] at hf
    rw [Made.folded?_recorded, ih hf]

end Unpaged

/-! ## Where a cycle stands -/

namespace Passage

variable {σ : Type}

/-- The watermark as it is kept. -/
def persisted (p : Passage σ) : Int :=
  p.shared.marks.current p.loop.handler.view

/-- The events behind `w` that the handler follows. -/
def behind (p : Passage σ) (log : EventLog) (w : Int) : List Event :=
  log.behind p.loop.handler.query w

/-- The cycle has folded and recorded `done`, and has made `more` calls since. -/
structure Tally (w : Int) (p : Passage σ) (c : Cycle) (done : List Event) (more : List Made) :
    Prop where
  processed : c.processed = done.length
  mark : p.loop.mark = markBehind w done
  persisted : p.persisted = markBehind w done
  calls : p.calls = Made.recorded done ++ more

/-- The cycle is about to read a page, and all pages before it were full. -/
structure OffPage (w : Int) (p : Passage σ) (c : Cycle) (done : List Event) : Prop
    extends Tally w p c done [] where
  reached : done <+: p.behind p.shared.log w
  count : p.queried.length * p.loop.config.batchSize = done.length
  steps : p.steps ≤ 2 * p.queried.length + 6 * done.length + 3

/-- The cycle has a page of `log` in hand, of `size` events, and is to fold `todo` of it. It has
taken `lag` steps since the last event at most. -/
structure OnPage (w : Int) (p : Passage σ) (log : EventLog) (c : Cycle) (done todo : List Event)
    (size lag : Nat) (more : List Made) : Prop extends Tally w p c done more where
  numbered : log.Numbered
  last : p.queried.getLast? = some log
  grown : log.events <+: p.shared.log.events
  reached : done ++ todo <+: p.behind log w
  short : size < p.loop.config.batchSize → done ++ todo = p.behind log w
  count : p.queried.length * p.loop.config.batchSize + size
    = (done ++ todo).length + p.loop.config.batchSize
  size_le : size ≤ p.loop.config.batchSize
  steps : p.steps ≤ 2 * p.queried.length + 6 * done.length + 2 + lag

/-- The cycle has made no call that counts. -/
structure Opening (w : Int) (p : Passage σ) (n : Nat) : Prop where
  persisted : p.persisted = w
  made : p.made = []
  steps : p.steps ≤ n

/-- What is said of a cycle from the watermark `w` that has ended. It did what a fold does that has
all events before it that were behind `w` in `log`, the log as it was last read. -/
structure Completed (w : Int) (p : Passage σ) (o : Outcome) (log : EventLog) : Prop where
  last : p.queried.getLast? = some log
  grown : log.events <+: p.shared.log.events
  /-- It read no more pages than it takes to read these events and see that there are no more. -/
  pages : p.queried.length ≤ (p.behind log w).length / p.loop.config.batchSize + 1
  unpaged : Unpaged w 0 (p.behind log w) p.calls o
  ascending : (p.behind log w).Pairwise fun a b => a.position < b.position
  /-- It reports how many events it folded, and the watermark as it is kept. -/
  report : o.report? = some ((p.calls.filterMap Made.folded?).length, p.persisted)
  /-- The watermark is the position of the last event that it folded. -/
  persisted : p.persisted = markBehind w (p.calls.filterMap Made.folded?)
  caughtUp_iff : (∃ n mark, o = .caughtUp n mark) ↔ p.calls.filterMap Made.failed? = []
  /-- If no fold failed, nothing was left behind the watermark. -/
  nothing_left : p.calls.filterMap Made.failed? = [] → p.behind log p.persisted = []

/-- Where a cycle from the watermark `w` stands. -/
def Stage (w : Int) (p : Passage σ) : Prop :=
  match p.loop.phase with
  | .acquiring => p.Opening w 0
  | .checkingReset c => p.Opening w 1 ∧ c.processed = 0
  | .locating c => p.Opening w 2 ∧ c.processed = 0
  | .paging c => ∃ done, p.OffPage w c done
  | .between c g => ∃ log done, p.OnPage w log c done g.rest g.size 0 []
  | .renewing c e g => ∃ log done, p.OnPage w log c done (e :: g.rest) g.size 1 []
  | .waiting _ c e g => ∃ log done, p.OnPage w log c done (e :: g.rest) g.size 2 []
  | .folding c e g => ∃ log done, p.OnPage w log c done (e :: g.rest) g.size 3 []
  | .writing c e g _ => ∃ log done, p.OnPage w log c done (e :: g.rest) g.size 4 []
  | .recording c e g =>
    ∃ log done, p.OnPage w log c done (e :: g.rest) g.size 5 [.process e none]
  | .ended o => ∃ log, p.Completed w o log ∧ p.steps ≤ 8 * (p.behind log w).length + 9
  | _ => False

/-! ## Moves that leave the tally alone -/

/-- Behind `p'` the loop is set up as it was and has made no call, and the log has grown at most. -/
structure Alike (p p' : Passage σ) : Prop where
  config : p'.loop.config = p.loop.config
  handler : p'.loop.handler = p.loop.handler
  mark : p'.loop.mark = p.loop.mark
  persisted : p'.persisted = p.persisted
  log : p.shared.log.events <+: p'.shared.log.events
  made : p'.made = p.made

/-- The loop moves on, and others have written leases and views. -/
theorem alike_moved {σ : Type} (p : Passage σ) (phase : Phase σ) (leases : LeaseTable) (views : σ)
    (n : Nat) :
    p.Alike ⟨{ p.loop with phase := phase }, { p.shared with leases := leases, views := views },
      p.made, n⟩ :=
  ⟨rfl, rfl, rfl, rfl, List.prefix_rfl, rfl⟩

section alike

variable {w : Int} {p p' : Passage σ} {log : EventLog} {c c' : Cycle} {done todo : List Event}
  {size lag lag' : Nat} {more : List Made} {o : Outcome}

theorem Alike.queried (a : p.Alike p') : p'.queried = p.queried := by
  unfold Passage.queried
  rw [a.made]

theorem Alike.calls (a : p.Alike p') : p'.calls = p.calls := by
  unfold Passage.calls
  rw [a.made]

theorem Alike.behind (a : p.Alike p') (log : EventLog) (w : Int) :
    p'.behind log w = p.behind log w := by
  unfold Passage.behind
  rw [a.handler]

theorem Tally.keep (h : p.Tally w c done more) (a : p.Alike p')
    (hc : c'.processed = c.processed) : p'.Tally w c' done more :=
  ⟨hc.trans h.processed, a.mark.trans h.mark, a.persisted.trans h.persisted,
    a.calls.trans h.calls⟩

theorem OffPage.keep (h : p.OffPage w c done) (a : p.Alike p') (hs : p'.steps = p.steps) :
    p'.OffPage w c done where
  toTally := h.toTally.keep a rfl
  reached := by
    rw [a.behind]
    exact h.reached.trans (EventLog.behind_prefix a.log)
  count := by rw [a.queried, a.config, h.count]
  steps := by rw [a.queried, hs]; exact h.steps

theorem OnPage.keep (h : p.OnPage w log c done todo size lag more) (a : p.Alike p')
    (hc : c'.processed = c.processed) (hs : p'.steps + lag ≤ p.steps + lag') :
    p'.OnPage w log c' done todo size lag' more where
  toTally := h.toTally.keep a hc
  numbered := h.numbered
  last := a.queried ▸ h.last
  grown := h.grown.trans a.log
  reached := by rw [a.behind]; exact h.reached
  short := by rw [a.behind, a.config]; exact h.short
  count := by rw [a.queried, a.config]; exact h.count
  size_le := a.config ▸ h.size_le
  steps := by
    have := h.steps
    rw [a.queried]
    omega

theorem Completed.keep (h : p.Completed w o log) (a : p.Alike p') : p'.Completed w o log where
  last := a.queried ▸ h.last
  grown := h.grown.trans a.log
  pages := by rw [a.queried, a.behind, a.config]; exact h.pages
  unpaged := by rw [a.behind, a.calls]; exact h.unpaged
  ascending := by rw [a.behind]; exact h.ascending
  report := by rw [a.calls, a.persisted]; exact h.report
  persisted := by rw [a.calls, a.persisted]; exact h.persisted
  caughtUp_iff := by rw [a.calls]; exact h.caughtUp_iff
  nothing_left := by rw [a.calls, a.behind, a.persisted]; exact h.nothing_left

/-- What happens around a loop leaves it where it stands. -/
theorem Stage.keep (h : p.Stage w) (a : p.Alike p') (hp : p'.loop.phase = p.loop.phase)
    (hs : p'.steps = p.steps) : p'.Stage w := by
  have opening {n : Nat} (h : p.Opening w n) : p'.Opening w n :=
    ⟨a.persisted.trans h.persisted, a.made.trans h.made, hs ▸ h.steps⟩
  have onPage {c : Cycle} {todo : List Event} {size lag : Nat} {more : List Made}
      (h : ∃ log done, p.OnPage w log c done todo size lag more) :
      ∃ log done, p'.OnPage w log c done todo size lag more := by
    obtain ⟨log, done, h⟩ := h
    exact ⟨log, done, h.keep a rfl (by omega)⟩
  unfold Stage at h ⊢
  rw [hp]
  cases hphase : p.loop.phase <;> simp only [hphase] at h ⊢
  case acquiring => exact opening h
  case checkingReset c => exact ⟨opening h.1, h.2⟩
  case locating c => exact ⟨opening h.1, h.2⟩
  case paging c =>
    obtain ⟨done, h⟩ := h
    exact ⟨done, h.keep a hs⟩
  case ended o =>
    obtain ⟨log, h, hsteps⟩ := h
    exact ⟨log, h.keep a, by rwa [hs, a.behind]⟩
  all_goals exact onPage h

end alike

/-! ## Pages and calls -/

section page

variable {w : Int} {p p' : Passage σ} {log : EventLog} {c c' : Cycle} {e : Event}
  {done todo rest : List Event} {size lag : Nat} {more : List Made} {m : Made} {err : Error}
  {o : Outcome} {phase : Phase σ}

theorem behind_grow {log' : EventLog} (h : log.events <+: log'.events) :
    p.behind log w <+: p.behind log' w :=
  EventLog.behind_prefix h

theorem queried_concat (h : p'.made = p.made ++ [m]) :
    p'.queried = p.queried ++ m.log?.toList := by
  unfold Passage.queried
  rw [h, List.filterMap_append]
  cases m <;> rfl

theorem calls_concat (h : p'.made = p.made ++ [m]) :
    p'.calls = p.calls ++ [m].filter fun m => m.log?.isNone := by
  unfold Passage.calls
  rw [h, List.filter_append]

/-- A page is read. -/
theorem OffPage.page (h : p.OffPage w c done) (n : p.shared.log.Numbered)
    (hpage : p.shared.log.query p.loop.pageFilter = todo)
    (hp : p' = ⟨{ p.loop with phase := phase }, p.shared, p.made ++ [.query p.shared.log],
      p.steps + 1⟩) :
    p'.OnPage w p.shared.log c done todo todo.length 0 [] := by
  have hmade : p'.made = p.made ++ [.query p.shared.log] := by rw [hp]
  have hqueried : p'.queried = p.queried ++ [p.shared.log] := queried_concat hmade
  have hcalls : p'.calls = p.calls := (calls_concat hmade).trans (List.append_nil _)
  have hbatch : p'.loop.config.batchSize = p.loop.config.batchSize := by rw [hp]
  have hsteps : p'.steps = p.steps + 1 := by rw [hp]
  have htodo : (p.behind p.shared.log p.loop.mark).take p.loop.config.batchSize = todo := hpage
  have hlength := congrArg List.length htodo
  rw [List.length_take] at hlength
  -- the page is the start of what is left behind the events that are done
  have hbehind : p'.behind p.shared.log w = done ++ p.behind p.shared.log p.loop.mark := by
    rw [hp, h.mark]
    exact n.behind_markBehind h.reached
  refine
    { processed := h.processed
      mark := by rw [hp]; exact h.mark
      persisted := by rw [hp]; exact h.persisted
      calls := hcalls.trans h.calls
      numbered := n
      last := by rw [hqueried]; exact List.getLast?_concat
      grown := by rw [hp]
      reached := ?_
      short := fun hshort => ?_
      count := ?_
      size_le := ?_
      steps := ?_ }
  · rw [hbehind, ← htodo]
    exact (List.prefix_append_right_inj done).2 (List.take_prefix ..)
  · rw [hbehind, ← htodo, List.take_of_length_le (by omega)]
  · have hcount := h.count
    rw [hqueried, hbatch, List.length_append, List.length_append, List.length_singleton,
      Nat.succ_mul]
    omega
  · omega
  · have hbound := h.steps
    rw [hqueried, List.length_append, List.length_singleton]
    omega

/-- A full page is done. -/
theorem OnPage.full (h : p.OnPage w log c done [] size 0 [])
    (full : ¬size < p.loop.config.batchSize) (a : p.Alike p') (hs : p'.steps = p.steps + 1) :
    p'.OffPage w c done where
  toTally := h.toTally.keep a rfl
  reached := by
    have hreached := h.reached
    rw [List.append_nil] at hreached
    rw [a.behind]
    exact hreached.trans (behind_grow (h.grown.trans a.log))
  count := by
    have hcount := h.count
    have hsize := h.size_le
    rw [List.append_nil] at hcount
    rw [a.queried, a.config]
    omega
  steps := by
    have hsteps := h.steps
    rw [a.queried, hs]
    omega

/-- A call is made that reads no page. -/
theorem OnPage.call (h : p.OnPage w log c done todo size lag more) (hm : m.log? = none) :
    ({ p with made := p.made ++ [m] } : Passage σ).OnPage w log c done todo size lag
      (more ++ [m]) := by
  have hqueried : ({ p with made := p.made ++ [m] } : Passage σ).queried = p.queried := by
    rw [queried_concat (p := p) (m := m) rfl, hm]
    exact List.append_nil _
  exact
    { processed := h.processed
      mark := h.mark
      persisted := h.persisted
      calls := by rw [calls_concat (p := p) (m := m) rfl, h.calls, List.append_assoc]; simp [hm]
      numbered := h.numbered
      last := hqueried ▸ h.last
      grown := h.grown
      reached := h.reached
      short := h.short
      count := hqueried ▸ h.count
      size_le := h.size_le
      steps := hqueried ▸ h.steps }

/-- A fold is recorded. -/
theorem OnPage.record (h : p.OnPage w log c done (e :: rest) size 5 [.process e none])
    (now : Instant) (hc : c'.processed = c.processed + 1)
    (hp : p' = ⟨{ p.loop with mark := e.position, phase := phase },
      { p.shared with marks := p.shared.marks.advance now p.loop.handler.view e.position },
      p.made ++ [.advance e.position], p.steps + 1⟩) :
    p'.OnPage w log c' (done ++ [e]) rest size 0 [] := by
  have hmade : p'.made = p.made ++ [.advance e.position] := by rw [hp]
  have hqueried : p'.queried = p.queried := (queried_concat hmade).trans (List.append_nil _)
  have hcalls : p'.calls = p.calls ++ [.advance e.position] := calls_concat hmade
  have hlist : done ++ [e] ++ rest = done ++ e :: rest := List.append_assoc ..
  -- the event comes behind those that are done, so the watermark moves up to it
  have hnext : markBehind w done < e.position := by
    obtain ⟨tail, htail⟩ := h.reached
    have hsplit : p.behind log w = done ++ log.behind p.loop.handler.query (markBehind w done) :=
      h.numbered.behind_markBehind ((List.prefix_append done (e :: rest)).trans h.reached)
    rw [hsplit, List.append_assoc, List.append_cancel_left_eq] at htail
    exact (h.numbered.next htail.symm).1
  have hpersisted : p'.persisted = max p.persisted e.position := by
    rw [hp]
    exact WatermarkTable.current_advance ..
  refine
    { processed := ?_
      mark := by rw [hp, markBehind_concat]
      persisted := ?_
      calls := by rw [hcalls, h.calls, Made.recorded_concat, List.append_nil]
      numbered := h.numbered
      last := hqueried ▸ h.last
      grown := by rw [hp]; exact h.grown
      reached := by rw [hp, hlist]; exact h.reached
      short := by rw [hp, hlist]; exact h.short
      count := by rw [hqueried, hp, hlist]; exact h.count
      size_le := by rw [hp]; exact h.size_le
      steps := ?_ }
  · rw [hc, h.processed, List.length_append, List.length_singleton]
  · rw [hpersisted, h.persisted, markBehind_concat]
    omega
  · have hbound := h.steps
    have hsteps : p'.steps = p.steps + 1 := by rw [hp]
    rw [hqueried, List.length_append, List.length_singleton]
    omega

/-! ## Ends -/

theorem OnPage.pages_le (h : p.OnPage w log c done todo size lag more) :
    p.queried.length ≤ (p.behind log w).length / p.loop.config.batchSize + 1 := by
  have hpos := p.loop.config.one_le_batchSize
  have hlength := h.reached.length_le
  have hcount := h.count
  rw [← Nat.add_div_right _ hpos, Nat.le_div_iff_mul_le hpos]
  omega

theorem OnPage.steps_le (h : p.OnPage w log c done todo size lag more) :
    p.steps ≤ 8 * (p.behind log w).length + 4 + lag := by
  have hpages := h.pages_le
  have hdiv := Nat.div_le_self (p.behind log w).length p.loop.config.batchSize
  have hlength := h.reached.length_le
  have hsteps := h.steps
  rw [List.length_append] at hlength
  omega

theorem OnPage.completed (h : p.OnPage w log c done todo size lag more)
    (hu : Unpaged (markBehind w done) done.length (todo ++ rest) more o)
    (hrest : done ++ todo ++ rest = p.behind log w)
    (hmore : more.filterMap Made.folded? = []) : p.Completed w o log := by
  have hunpaged : Unpaged w 0 (p.behind log w) p.calls o := by
    rw [h.calls, ← hrest, List.append_assoc]
    exact .behind (by rwa [Nat.zero_add])
  have hfolded : p.calls.filterMap Made.folded? = done := by
    rw [h.calls, List.filterMap_append, hmore, List.append_nil, Made.filterMap_recorded]
  have hpersisted : p.persisted = markBehind w (p.calls.filterMap Made.folded?) := by
    rw [hfolded]
    exact h.persisted
  refine
    { last := h.last
      grown := h.grown
      pages := h.pages_le
      unpaged := hunpaged
      ascending := h.numbered.behind_ascending
      report := ?_
      persisted := hpersisted
      caughtUp_iff := hunpaged.caughtUp_iff
      nothing_left := fun hf => ?_ }
  · rw [hunpaged.report?_eq, Nat.zero_add, ← hpersisted]
  · have hall := hunpaged.folded_eq hf
    have hsplit := h.numbered.behind_markBehind (q := p.loop.handler.query)
      (List.prefix_rfl (l := log.behind p.loop.handler.query w))
    rw [hpersisted, hall]
    exact List.append_right_eq_self.1 hsplit.symm

/-- The cycle catches up at the end of a page that is not full. -/
theorem OnPage.finish (h : p.OnPage w log c done [] size lag [])
    (short : size < p.loop.config.batchSize) :
    p.Completed w (.caughtUp c.processed p.loop.mark) log := by
  rw [h.processed, h.mark]
  have hu : Unpaged (markBehind w done) done.length ([] ++ []) []
      (.caughtUp done.length (markBehind w done)) := .finish ..
  exact h.completed hu (by rw [List.append_nil]; exact h.short short) rfl

/-- The cycle halts at an event that cannot be folded. -/
theorem OnPage.fail (h : p.OnPage w log c done (e :: rest) size lag [.process e (some err)]) :
    p.Completed w (.halted c.processed p.loop.mark err) log := by
  obtain ⟨tail, htail⟩ := h.reached
  rw [h.processed, h.mark]
  exact h.completed (.fail ..) htail rfl

end page

end Passage

/-! ## The course of a cycle -/

/-- What holds of a cycle of the loop `l` from the watermark `w` that nothing has hindered. -/
structure Course {σ : Type} (l : ViewLoop σ) (w : Int) (p : Passage σ) : Prop where
  config : p.loop.config = l.config
  handler : p.loop.handler = l.handler
  numbered : p.shared.log.Numbered
  idle : p.shared.marks.resetRequested p.loop.handler.view = false
  stage : p.Stage w

namespace Course

open Passage

variable {σ : Type} {l : ViewLoop σ} {w : Int} {p p' : Passage σ} {now : Instant} {v : Verdict}

theorem keep (h : Course l w p) (a : p.Alike p') (hp : p'.loop.phase = p.loop.phase)
    (hs : p'.steps = p.steps) (n : p'.shared.log.Numbered)
    (idle : p'.shared.marks.resetRequested p'.loop.handler.view = false) : Course l w p' :=
  ⟨a.config.trans h.config, a.handler.trans h.handler, n, idle, h.stage.keep a hp hs⟩

/-- The start of a fold. -/
theorem stage_foldPhase {log : EventLog} {c : Cycle} {e : Event} {g : Page} {done : List Event}
    (hp : p.loop.phase = p.loop.foldPhase now c e g)
    (h : p.OnPage w log c done (e :: g.rest) g.size 2 []) : p.Stage w := by
  unfold ViewLoop.foldPhase at hp
  unfold Stage
  split at hp <;> rw [hp]
  · exact ⟨log, done, h.keep (p.alike_moved ..) rfl (by omega)⟩
  · exact ⟨log, done, h⟩

/-- The end of a cycle. -/
theorem stage_ended {log : EventLog} {c : Cycle} {done todo : List Event} {size lag : Nat}
    {more : List Made} {o : Outcome} (h : p.OnPage w log c done todo size lag more)
    (hlag : lag ≤ 4) (hc : p.Completed w o log) (a : p.Alike p') (hp : p'.loop.phase = .ended o)
    (hs : p'.steps = p.steps + 1) : p'.Stage w := by
  have hsteps := h.steps_le
  unfold Stage
  rw [hp]
  refine ⟨log, hc.keep a, ?_⟩
  rw [hs, a.behind]
  omega

theorem exists_of_isOk {ε α : Type} {r : Except ε α} (h : r.isOk = true) : ∃ a, r = .ok a := by
  cases r with
  | error err => cases h
  | ok a => exact ⟨a, rfl⟩

/-- **A step.** A step that nothing hinders keeps the cycle on its course. -/
theorem step (h : Course l w p) (hs : p.loop.smooth now v p.shared = true) :
    Course l w (p.beat (.step now v)) := by
  have hstage := h.stage
  unfold Stage at hstage
  unfold ViewLoop.smooth at hs
  cases hp : p.loop.phase <;>
    simp only [hp, Bool.and_eq_true, decide_eq_true_eq] at hstage hs
  case acquiring =>
    obtain ⟨rfl, hrenews⟩ := hs
    obtain ⟨leases, hlease⟩ := exists_of_isOk hrenews
    rw [beat_acquiring hp hlease]
    exact ⟨h.config, h.handler, h.numbered, h.idle,
      ⟨hstage.persisted, hstage.made, Nat.add_le_add_right hstage.steps 1⟩, rfl⟩
  case checkingReset c =>
    subst hs
    obtain ⟨hopening, hc⟩ := hstage
    rw [beat_checkingReset hp h.idle]
    exact ⟨h.config, h.handler, h.numbered, h.idle,
      ⟨hopening.persisted, hopening.made, Nat.add_le_add_right hopening.steps 1⟩, hc⟩
  case locating c =>
    subst hs
    obtain ⟨hopening, hc⟩ := hstage
    rw [beat_locating hp]
    refine ⟨h.config, h.handler, h.numbered, h.idle, [], ⟨⟨hc, hopening.persisted,
      hopening.persisted, ?_⟩, List.nil_prefix, ?_, ?_⟩⟩
    · simp [Passage.calls, hopening.made, Made.recorded]
    · simp [Passage.queried, hopening.made]
    · exact Nat.le_trans (Nat.add_le_add_right hopening.steps 1) (Nat.le_add_left ..)
  case paging c =>
    subst hs
    obtain ⟨done, hpage⟩ := hstage
    rw [beat_paging hp rfl]
    exact ⟨h.config, h.handler, h.numbered, h.idle, _, done, hpage.page h.numbered rfl rfl⟩
  case between c g =>
    subst hs
    obtain ⟨log, done, hpage⟩ := hstage
    obtain ⟨todo, size⟩ := g
    cases todo with
    | nil =>
      by_cases hsize : size < p.loop.config.batchSize
      · rw [beat_finished hp hsize]
        exact ⟨h.config, h.handler, h.numbered, h.idle, stage_ended hpage (Nat.zero_le 4)
          (hpage.finish hsize) (p.alike_moved ..) rfl rfl⟩
      · rw [beat_more hp hsize]
        exact ⟨h.config, h.handler, h.numbered, h.idle, done, hpage.full hsize (p.alike_moved ..) rfl⟩
    | cons e rest =>
      obtain ⟨phase, hphase, hbeat⟩ := beat_next hp now
      rw [hbeat]
      refine ⟨h.config, h.handler, h.numbered, h.idle, ?_⟩
      rcases hphase with rfl | rfl
      · exact ⟨log, done, hpage.keep (p.alike_moved ..) rfl (Nat.le_refl _)⟩
      · exact stage_foldPhase rfl (hpage.keep (p.alike_moved ..) rfl (Nat.le_succ _))
  case renewing c e g =>
    obtain ⟨rfl, hrenews⟩ := hs
    obtain ⟨leases, hlease⟩ := exists_of_isOk hrenews
    obtain ⟨log, done, hpage⟩ := hstage
    rw [beat_renewing hp hlease]
    exact ⟨h.config, h.handler, h.numbered, h.idle,
      stage_foldPhase rfl (hpage.keep (p.alike_moved ..) rfl (Nat.le_refl _))⟩
  case waiting wake c e g =>
    obtain ⟨rfl, hwake⟩ := hs
    obtain ⟨log, done, hpage⟩ := hstage
    rw [beat_waiting hp hwake]
    exact ⟨h.config, h.handler, h.numbered, h.idle, log, done,
      hpage.keep (p.alike_moved ..) rfl (Nat.le_refl _)⟩
  case folding c e g =>
    obtain ⟨log, done, hpage⟩ := hstage
    cases v with
    | crash => exact absurd rfl hs
    | pass =>
      rw [beat_folding hp]
      exact ⟨h.config, h.handler, h.numbered, h.idle, log, done,
        hpage.keep (p.alike_moved ..) rfl (Nat.le_refl _)⟩
    | fail err =>
      have hcall := hpage.call (show (Made.process e (some err)).log? = none from rfl)
      rw [beat_refused hp]
      exact ⟨h.config, h.handler, h.numbered, h.idle, stage_ended hcall (Nat.le_succ 3) hcall.fail
        (Passage.alike_moved ..) rfl rfl⟩
  case writing c e g f =>
    subst hs
    obtain ⟨log, done, hpage⟩ := hstage
    cases hf : f.error with
    | none =>
      rw [beat_writing hp hf]
      exact ⟨h.config, h.handler, h.numbered, h.idle, log, done,
        (hpage.call rfl).keep (Passage.alike_moved ..) rfl (Nat.le_refl _)⟩
    | some err =>
      have hcall := hpage.call (show (Made.process e (some err)).log? = none from rfl)
      rw [beat_spoiled hp hf]
      exact ⟨h.config, h.handler, h.numbered, h.idle, stage_ended hcall (Nat.le_refl 4) hcall.fail
        (Passage.alike_moved ..) rfl rfl⟩
  case recording c e g =>
    subst hs
    obtain ⟨log, done, hpage⟩ := hstage
    rw [beat_recording hp]
    exact ⟨h.config, h.handler, h.numbered, (WatermarkTable.resetRequested_advance ..).trans h.idle,
      log, done ++ [e], hpage.record now rfl rfl⟩
  case ended o => cases hs

/-- The invariant behind a run that nothing hinders. -/
theorem run (h : Course l w p) {beats : List (Beat σ)} (smooth : p.smooth beats = true) :
    Course l w (p.run beats) := by
  induction beats generalizing p with
  | nil => exact h
  | cons b beats ih =>
    cases b with
    | step now v =>
      rw [Passage.smooth, Bool.and_eq_true] at smooth
      exact ih (h.step smooth.1) smooth.2
    | append a =>
      refine ih (h.keep ?_ rfl rfl (h.numbered.land a) h.idle) smooth
      exact ⟨rfl, rfl, rfl, rfl, Attempt.prefix_land, rfl⟩
    | others leases marks views =>
      simp only [Passage.smooth, Bool.and_eq_true, decide_eq_true_eq, beq_iff_eq] at smooth
      obtain ⟨⟨hcurrent, hreset⟩, smooth⟩ := smooth
      refine ih (h.keep ?_ rfl rfl h.numbered (hreset.trans h.idle)) smooth
      exact ⟨rfl, rfl, rfl, hcurrent, List.prefix_rfl, rfl⟩

/-! ## The end of a cycle -/

/-- The number of steps is bounded by the number of events to fold. -/
theorem steps_le (h : Course l w p) :
    p.steps ≤ 8 * (p.shared.log.behind l.handler.query w).length + 9 := by
  have hbehind : p.shared.log.behind l.handler.query w = p.behind p.shared.log w := by
    unfold Passage.behind
    rw [h.handler]
  rw [hbehind]
  have onPage {log : EventLog} {c : Cycle} {done todo : List Event} {size lag : Nat}
      {more : List Made} (h : p.OnPage w log c done todo size lag more) (hlag : lag ≤ 5) :
      p.steps ≤ 8 * (p.behind p.shared.log w).length + 9 := by
    have hsteps := h.steps_le
    have hlength := (behind_grow (p := p) (w := w) h.grown).length_le
    omega
  have hstage := h.stage
  unfold Stage at hstage
  cases hp : p.loop.phase <;> simp only [hp] at hstage
  case acquiring =>
    have hsteps := hstage.steps
    omega
  case checkingReset c =>
    have hsteps := hstage.1.steps
    omega
  case locating c =>
    have hsteps := hstage.1.steps
    omega
  case paging c =>
    obtain ⟨done, hpage⟩ := hstage
    have hsteps := hpage.steps
    have hlength := hpage.reached.length_le
    have hpages : p.queried.length ≤ done.length := by
      rw [← hpage.count]
      exact Nat.le_mul_of_pos_right _ p.loop.config.one_le_batchSize
    omega
  case ended o =>
    obtain ⟨log, hc, hsteps⟩ := hstage
    have hlength := (behind_grow (p := p) (w := w) hc.grown).length_le
    omega
  all_goals
    obtain ⟨log, done, hpage⟩ := hstage
    exact onPage hpage (by omega)

/-- A cycle that has not ended can go on, once leases are free and time has passed. -/
theorem exists_step (hne : ∀ o, p.loop.phase ≠ .ended o) :
    ∃ more, (∀ a, Beat.append a ∉ more) ∧ p.smooth more = true ∧
      (p.run more).shared.log = p.shared.log ∧ (p.run more).steps = p.steps + 1 := by
  let freed : Beat σ := .others Index.empty p.shared.marks p.shared.views
  have hfree (now : Instant) : (p.beat freed).shared.leases.renew now p.loop.config.holder
      p.loop.handler.view p.loop.config.lockWait = .ok _ := rfl
  have hsmooth : ∃ now, p.loop.smooth now .pass (p.beat freed).shared = true := by
    unfold ViewLoop.smooth
    cases hp : p.loop.phase <;> simp only [hfree]
    case waiting wake c e g => exact ⟨wake, by simp⟩
    case ended o => exact absurd hp (hne o)
    all_goals exact ⟨⟨0⟩, rfl⟩
  obtain ⟨now, hnow⟩ := hsmooth
  refine ⟨[freed, .step now .pass], by simp [freed], ?_, ?_, rfl⟩
  · simp only [freed, Passage.smooth, decide_true, beq_self_eq_true, Bool.true_and, Bool.and_true]
    exact hnow
  · exact (p.loop.step_turn (p.beat freed).shared).log_eq

/-- A cycle comes to its end without any further append. -/
theorem exists_end (h : Course l w p) :
    ∃ more, (∀ a, Beat.append a ∉ more) ∧ p.smooth more = true ∧
      ∃ o, (p.run more).loop.phase = .ended o := by
  -- each step uses up one of those that the log allows, and the log stays as it is
  obtain ⟨k, hk⟩ : ∃ k, 8 * (p.shared.log.behind l.handler.query w).length + 9 ≤ p.steps + k :=
    ⟨_, Nat.le_add_left ..⟩
  induction k generalizing p with
  | zero =>
    by_contra hnot
    obtain ⟨more, happend, hsmooth, hlog, hsteps⟩ := exists_step (p := p) fun o ho =>
      hnot ⟨[], fun _ => List.not_mem_nil, rfl, o, ho⟩
    have hbound := (h.run hsmooth).steps_le
    rw [hlog, hsteps] at hbound
    omega
  | succ k ih =>
    by_cases hend : ∃ o, p.loop.phase = .ended o
    · exact ⟨[], fun _ => List.not_mem_nil, rfl, hend⟩
    · obtain ⟨more, happend, hsmooth, hlog, hsteps⟩ := exists_step fun o ho => hend ⟨o, ho⟩
      obtain ⟨rest, happend', hsmooth', hend'⟩ := ih (h.run hsmooth) (by rw [hlog, hsteps]; omega)
      refine ⟨more ++ rest, fun a ha => ?_, ?_, ?_⟩
      · exact (List.mem_append.1 ha).elim (happend a) (happend' a)
      · rw [smooth_append, hsmooth, hsmooth']
        rfl
      · rw [run_append]
        exact hend'

end Course

theorem Passage.course_start {σ : Type} {l : ViewLoop σ} {s : Shared σ} (n : s.log.Numbered)
    (idle : s.marks.resetRequested l.handler.view = false) :
    Course l (s.marks.current l.handler.view) (start l s) :=
  ⟨rfl, rfl, n, idle, rfl, rfl, Nat.le_refl 0⟩

/-- **Cycles.** Nothing hinders a cycle that starts from the watermark `w`, others append meanwhile,
and no request to build the view again is pending. Then

* the cycle takes a bounded number of steps for the events that it finds behind `w`, and from
  wherever it stands it comes to its end without any further append;
* if it has ended, it did what an unpaged fold does, of the events behind `w` in the log as it was
  last read, which holds all that the log held when the cycle started. -/
theorem Passage.completed_of_smooth {σ : Type} {l : ViewLoop σ} {s : Shared σ}
    (n : s.log.Numbered) (idle : s.marks.resetRequested l.handler.view = false)
    {beats : List (Beat σ)} (smooth : (start l s).smooth beats = true) :
    let w := s.marks.current l.handler.view
    let p := (start l s).run beats
    p.loop.handler = l.handler ∧ p.loop.config = l.config ∧
    p.steps ≤ 8 * (p.shared.log.behind l.handler.query w).length + 9 ∧
    (∃ more, (∀ a, Beat.append a ∉ more) ∧ (start l s).smooth (beats ++ more) = true ∧
      ∃ o, ((start l s).run (beats ++ more)).loop.phase = .ended o) ∧
    ∀ o, p.loop.phase = .ended o →
      ∃ log, s.log.events <+: log.events ∧ p.Completed w o log := by
  intro w p
  have h : Course l w p := (course_start n idle).run smooth
  refine ⟨h.handler, h.config, h.steps_le, ?_, fun o ho => ?_⟩
  · obtain ⟨more, happend, hsmooth, hend⟩ := h.exists_end
    refine ⟨more, happend, ?_, ?_⟩
    · rw [smooth_append, smooth, hsmooth]
      rfl
    · rw [run_append]
      exact hend
  · have hstage := h.stage
    unfold Stage at hstage
    rw [ho] at hstage
    obtain ⟨log, hc, -⟩ := hstage
    have hstart : (start l s).Since s.log.events := ⟨List.prefix_rfl, by simp [queried, start]⟩
    have hsince : p.Since s.log.events := hstart.run beats
    exact ⟨log, hsince.queried log (List.mem_of_getLast? hc.last), hc⟩

/-- A third event is appended while the first of a full page of two is folded. The cycle reads it on
a second page, and halts at it. -/
theorem Passage.completed_of_smooth_halted :
    let handler : Handler Recording :=
      Recording.handler "seen" Filter.all ⟨id, fun r _ => r⟩ (Duration.ofSecs 1)
    let draft : Draft := ⟨Uuid.nil, "counter.moved", .obj [], "eve", ⟨0⟩⟩
    let counter : Stream := { kind := "counter", id := "c", owner := "acme" }
    let log := EventLog.empty.tried [⟨counter, 0, [draft, draft], 2⟩]
    let l : ViewLoop Recording := { config := { holder := "a", batchSize := 2 }, handler := handler }
    let s : Shared Recording := { log := log, views := { refuseAt := some 3 } }
    let steps (n : Nat) : List (Beat Recording) := List.replicate n (.step ⟨0⟩ .pass)
    let beats := steps 7 ++ .append ⟨counter, 2, [draft], 3⟩ :: steps 10
    let p := (start l s).run beats
    s.log.Numbered ∧ s.marks.resetRequested l.handler.view = false ∧
      (start l s).smooth beats = true ∧ p.queried.length = 2 ∧
      ∃ log, s.log.events <+: log.events ∧
        p.Completed 0 (.halted 2 2 (.violation (.refused 3))) log := by
  intro handler draft counter log l s steps beats p
  have n : s.log.Numbered := (EventLog.numbered_of_events_eq_nil rfl).tried _
  have smooth : (start l s).smooth beats = true := by decide +kernel
  have hend : p.loop.phase = .ended (.halted 2 2 (.violation (.refused 3))) :=
    Phase.eq_ended_of_outcome? (by decide +kernel)
  have hqueried : p.queried.length = 2 := by decide +kernel
  obtain ⟨-, -, -, -, hcompleted⟩ := completed_of_smooth n rfl smooth
  exact ⟨n, rfl, smooth, hqueried, hcompleted _ hend⟩

end Chronicle
