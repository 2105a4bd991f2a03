import Chronicle.Proofs.Loop.Unpaged
import Chronicle.Proofs.Loop.Watch
/-!
# What a loop reports

A loop keeps a copy of the watermark of its view and reports that copy at the end of a cycle. The
copy is made in the middle of a cycle, and kept up from there over all later cycles, whatever fails
in them. A loop whose cycles have all failed before that reports zero.

One loop is followed from its start. Others append, and write what they like but the watermark of
the view.

* `ViewLoop.Leaves`, `ViewLoop.step_leaves`: the steps behind which a loop is outside of a cycle;
* `Reporter`, **`Reporter.run`**: a loop with the board that it publishes to;
* `Reporter.Sound`, `Reporter.Sound.act`: the invariant, and what one act makes of it;
* `Reporter.Reports`: what is said of a report;
* **`Reporter.reports_run`**: a report is right once the loop has seen the watermark;
* `Reporter.not_truthful_of_failed_renewal`: and wrong before, unless the watermark is zero.
-/

namespace Chronicle

/-! ## Steps that leave a cycle -/

namespace ViewLoop

variable {σ : Type} {now : Instant} {stop : Bool} {v : Verdict}

/-- Behind a step the loop is outside of a cycle. It has left its mark and the watermarks alone, and
if the cycle has ended it reports its mark; one that has not read the watermark has failed. -/
structure Leaves (l : ViewLoop σ) (s : Shared σ) (r : Stepped σ) : Prop where
  out : r.loop.phase.inCycle = false
  handler : r.loop.handler = l.handler
  mark : r.loop.mark = l.mark
  log : r.shared.log = s.log
  marks : r.shared.marks = s.marks
  report : ∀ o n mark, r.loop.phase = .ended o → o.report? = some (n, mark) →
    mark = l.mark ∧ (l.phase.ahead? = none → ∃ err, o = .halted 0 mark err)

section leaves

variable (l : ViewLoop σ) (s : Shared σ)

/-- A step to a phase that is not the end of a cycle. -/
theorem leaves_silent {r : Stepped σ} (backoff : Backoff) (phase : Phase σ)
    (hr : r.loop = { l with phase := phase, backoff := backoff }) (hs : r.shared = s)
    (out : phase.inCycle = false) (silent : phase.outcome? = none) : l.Leaves s r := by
  refine ⟨hr ▸ out, by rw [hr], by rw [hr], by rw [hs], by rw [hs], fun o n mark ho => ?_⟩
  rw [hr] at ho
  cases ho
  cases silent

theorem leaves_cutOff : l.Leaves s (l.cutOff s) :=
  l.leaves_silent s l.backoff .crashed rfl rfl rfl rfl

/-- A step to the end of a cycle. A fold that it cuts short may have written to the view. -/
theorem leaves_ended {r : Stepped σ} {o : Outcome} (views : σ)
    (hr : r.loop = { l with phase := .ended o }) (hs : r.shared = { s with views := views })
    (report : ∀ n mark, o.report? = some (n, mark) →
      mark = l.mark ∧ (l.phase.ahead? = none → ∃ err, o = .halted 0 mark err)) :
    l.Leaves s r := by
  refine ⟨by rw [hr]; rfl, by rw [hr], by rw [hr], by rw [hs], by rw [hs], fun o' n mark ho => ?_⟩
  rw [hr] at ho
  cases ho
  exact report n mark

theorem leaves_halt {n : Nat} (err : Error) (hn : l.phase.ahead? = none → n = 0) :
    l.Leaves s (l.halt s n err) := by
  refine l.leaves_ended s s.views rfl rfl fun m mark hreport => ?_
  cases hreport
  exact ⟨rfl, fun hnone => ⟨err, by rw [hn hnone]⟩⟩

theorem leaves_haltAt (c : Cycle) (e : Event) (err : Error) (views : σ)
    (ahead : l.phase.ahead? ≠ none) :
    l.Leaves s (l.haltAt { s with views := views } c e err) := by
  refine l.leaves_ended s views rfl rfl fun m mark hreport => ?_
  cases hreport
  exact ⟨rfl, fun hnone => absurd hnone ahead⟩

theorem leaves_finish (c : Cycle) (ahead : l.phase.ahead? ≠ none) :
    l.Leaves s (l.finish s c) := by
  refine l.leaves_ended s s.views rfl rfl fun m mark hreport => ?_
  cases hreport
  exact ⟨rfl, fun hnone => absurd hnone ahead⟩

/-- The step that takes the lease. -/
theorem acquire_leaves :
    (l.acquire s now v).loop.phase.inCycle = true ∨ l.Leaves s (l.acquire s now v) := by
  unfold acquire
  split
  · exact .inr (l.leaves_cutOff s)
  · exact .inr (l.leaves_ended s s.views rfl rfl nofun)
  · exact .inr (l.leaves_halt s _ fun _ => rfl)
  · exact .inl rfl

theorem inCycle_foldPhase (now : Instant) (c : Cycle) (e : Event) (p : Page) :
    (l.foldPhase now c e p).inCycle = true := by
  unfold foldPhase
  split <;> rfl

/-- The step between two events. -/
theorem turn_leaves {c : Cycle} {p : Page} (h : l.phase = .between c p) :
    (l.turn s now c p).loop.phase.inCycle = true ∨ l.Leaves s (l.turn s now c p) := by
  unfold turn
  split
  · split
    · exact .inr (l.leaves_finish s c (by simp [h, Phase.ahead?]))
    · exact .inl rfl
  · dsimp only
    split
    · exact .inl rfl
    · exact .inl (l.inCycle_foldPhase now ..)

end leaves

/-- A step stays in its cycle or leaves it. -/
theorem step_leaves (l : ViewLoop σ) (s : Shared σ) :
    (l.step now stop v s).loop.phase.inCycle = true ∨ l.Leaves s (l.step now stop v s) := by
  unfold step
  cases h : l.phase <;> dsimp only
  case ready =>
    split
    · exact .inr (l.leaves_silent s l.backoff .stopped rfl rfl rfl rfl)
    · exact .inr (l.leaves_silent s l.backoff .acquiring rfl rfl rfl rfl)
  case acquiring => exact l.acquire_leaves s
  case checkingReset c =>
    split
    · exact .inr (l.leaves_cutOff s)
    · exact .inr (l.leaves_halt s _ fun _ => rfl)
    · exact .inl rfl
    · exact .inl rfl
  case clearing c =>
    split
    · exact .inr (l.leaves_cutOff s)
    · exact .inr (l.leaves_halt s _ fun _ => rfl)
    · exact .inl rfl
  case dropping c =>
    split
    · exact .inr (l.leaves_cutOff s)
    · exact .inr (l.leaves_halt s _ fun _ => rfl)
    · exact .inl rfl
  case locating c =>
    split
    · exact .inr (l.leaves_cutOff s)
    · exact .inr (l.leaves_halt s _ fun _ => rfl)
    · exact .inl rfl
  case paging c =>
    have hahead : l.phase.ahead? ≠ none := by simp [h, Phase.ahead?]
    split
    · exact .inr (l.leaves_finish s c hahead)
    · split
      · exact .inr (l.leaves_cutOff s)
      · exact .inr (l.leaves_halt s _ fun hnone => absurd hnone hahead)
      · exact .inl rfl
  case between c p => exact l.turn_leaves s h
  case renewing c e p =>
    have hahead : l.phase.ahead? ≠ none := by simp [h, Phase.ahead?]
    split
    · exact .inr (l.leaves_cutOff s)
    · exact .inr (l.leaves_halt s _ fun hnone => absurd hnone hahead)
    · exact .inl (l.inCycle_foldPhase now _ e p)
  case waiting wake c e p =>
    split
    · exact .inl rfl
    · exact .inl (by rw [h]; rfl)
  case folding c e p =>
    have hahead : l.phase.ahead? ≠ none := by simp [h, Phase.ahead?]
    split
    · exact .inr (l.leaves_cutOff s)
    · exact .inr (l.leaves_haltAt s c e _ s.views hahead)
    · exact .inl rfl
  case writing c e p f =>
    have hahead : l.phase.ahead? ≠ none := by simp [h, Phase.ahead?]
    split
    · exact .inr (l.leaves_haltAt s c e _ _ hahead)
    · exact .inl rfl
  case recording c e p =>
    have hahead : l.phase.ahead? ≠ none := by simp [h, Phase.ahead?]
    split
    · exact .inr (l.leaves_cutOff s)
    · exact .inr (l.leaves_halt s _ fun hnone => absurd hnone hahead)
    · exact .inl rfl
  case ended o => exact .inr (l.leaves_silent s _ (.sleeping _) rfl rfl rfl rfl)
  case sleeping wake =>
    split
    · exact .inr (l.leaves_silent s l.backoff .ready rfl rfl rfl rfl)
    · exact .inr (l.leaves_silent s l.backoff (.sleeping wake) (by rw [← h]) rfl rfl rfl)
  case stopped => exact .inr (l.leaves_silent s l.backoff .stopped (by rw [← h]) rfl rfl rfl)
  case crashed => exact .inr (l.leaves_silent s l.backoff .crashed (by rw [← h]) rfl rfl rfl)

end ViewLoop

/-! ## A loop and its board -/

/-- A step by which a loop comes to know the watermark: it reads it, or drops it. -/
def Stride.sights : Option Stride → Bool
  | some .dropped => true
  | some .located => true
  | _ => false

/-- A loop with the board that it publishes to. -/
structure Reporter (σ : Type) where
  loop : ViewLoop σ
  shared : Shared σ
  board : Board
  /-- Whether the loop has seen the watermark since it started. -/
  seen : Bool := false

namespace Reporter

variable {σ : Type}

/-- The watermark of the view as it is kept. -/
def persisted (p : Reporter σ) : Int :=
  p.shared.marks.current p.loop.handler.view

/-- What may happen to a loop. -/
inductive Act (σ : Type) where
  /-- It takes a step at an instant, told to stop or not, and `v` is what becomes of its call. -/
  | step (now : Instant) (stop : Bool) (v : Verdict)
  /-- Somebody tries to append. -/
  | append (a : Attempt)
  /-- Others have written to leases, to watermarks and to views. -/
  | others (leases : LeaseTable) (marks : WatermarkTable) (views : σ)

/-- A loop that has just been created. -/
def start (config : LoopConfig) (handler : Handler σ) (s : Shared σ) (b : Board) : Reporter σ where
  loop := { config := config, handler := handler }
  shared := s
  board := b

/-- The loop at `l` over `s`, behind a step at `now`. The end of a cycle has been published. -/
def move (p : Reporter σ) (now : Instant) (l : ViewLoop σ) (s : Shared σ) : Reporter σ where
  loop := l
  shared := s
  board := p.loop.phase.publish now p.loop.handler.view p.board
  seen := p.seen || Stride.sights (p.loop.phase.stride? l.phase)

/-- The loop after something happened. Nobody else moves the watermark of its view. -/
def act (p : Reporter σ) : Act σ → Reporter σ
  | .step now stop v =>
    p.move now (p.loop.step now stop v p.shared).loop (p.loop.step now stop v p.shared).shared
  | .append a => { p with shared := { p.shared with log := a.land p.shared.log } }
  | .others leases marks views =>
    if marks.current p.loop.handler.view = p.persisted then
      { p with
        shared := { log := p.shared.log, leases := leases, marks := marks, views := views } }
    else p

def run (p : Reporter σ) (acts : List (Act σ)) : Reporter σ := acts.foldl act p

/-! ## The invariant -/

/-- A loop that has seen the watermark has it as its mark, and one that has not is at zero. The page
in hand is what comes behind the mark. -/
structure Sound (p : Reporter σ) : Prop where
  numbered : p.shared.log.Numbered
  mark : p.loop.mark = if p.seen then p.persisted else 0
  page : ∀ es, p.loop.phase.ahead? = some es →
    p.seen = true ∧ es <+: p.shared.log.behind p.loop.handler.query p.loop.mark
  report : ∀ o n mark, p.loop.phase = .ended o → o.report? = some (n, mark) →
    mark = p.loop.mark ∧ (p.seen = false → ∃ err, o = .halted 0 mark err)

namespace Sound

variable {p : Reporter σ} {now : Instant} {l : ViewLoop σ} {s : Shared σ}

theorem mark_of_seen (h : p.Sound) (seen : p.seen = true) : p.loop.mark = p.persisted := by
  rw [h.mark, if_pos seen]

/-- A step that leaves a cycle. -/
theorem leave {r : Stepped σ} (h : p.Sound) (hl : p.loop.Leaves p.shared r) :
    (p.move now r.loop r.shared).Sound := by
  have hseen : (p.move now r.loop r.shared).seen = p.seen := by
    unfold move
    rw [Phase.stride?_of_not_inCycle hl.out]
    exact Bool.or_false _
  have hpersisted : (p.move now r.loop r.shared).persisted = p.persisted := by
    unfold persisted move
    rw [hl.marks, hl.handler]
  refine ⟨?_, ?_, fun es hes => ?_, fun o n mark ho hreport => ?_⟩
  · change r.shared.log.Numbered
    rw [hl.log]
    exact h.numbered
  · rw [hseen, hpersisted]
    exact hl.mark.trans h.mark
  · cases (Phase.ahead?_of_not_inCycle hl.out).symm.trans hes
  · obtain ⟨hmark, hfirst⟩ := hl.report o n mark ho hreport
    refine ⟨hmark.trans hl.mark.symm, fun hnot => hfirst ?_⟩
    rw [hseen] at hnot
    cases hahead : p.loop.phase.ahead? with
    | none => rfl
    | some es => rw [(h.page es hahead).1] at hnot; cases hnot

/-- A step within a cycle that leaves the watermark alone. -/
theorem stay (h : p.Sound) (inside : l.phase.inCycle = true) (handler : l.handler = p.loop.handler)
    (mark : l.mark = p.loop.mark) (log : s.log = p.shared.log) (marks : s.marks = p.shared.marks)
    (blind : Stride.sights (p.loop.phase.stride? l.phase) = false)
    (page : ∀ es, l.phase.ahead? = some es →
      p.seen = true ∧ es <+: p.shared.log.behind p.loop.handler.query p.loop.mark) :
    (p.move now l s).Sound := by
  have hseen : (p.move now l s).seen = p.seen := by
    unfold move
    rw [blind]
    exact Bool.or_false _
  have hpersisted : (p.move now l s).persisted = p.persisted := by
    unfold persisted move
    rw [marks, handler]
  refine ⟨?_, ?_, fun es hes => ?_, fun o n mark ho hreport => ?_⟩
  · change s.log.Numbered
    rw [log]
    exact h.numbered
  · rw [hseen, hpersisted]
    exact mark.trans h.mark
  · change _ ∧ es <+: s.log.behind l.handler.query l.mark
    rw [hseen, log, handler, mark]
    exact page es hes
  · change l.phase = .ended o at ho
    rw [ho] at inside
    cases inside

/-- A step behind which the loop has seen the watermark, and has it as its mark. -/
theorem informed (log : s.log = p.shared.log) (seen : (p.move now l s).seen = true)
    (mark : l.mark = s.marks.current l.handler.view) (h : p.Sound)
    (page : ∀ es, l.phase.ahead? = some es → es <+: s.log.behind l.handler.query l.mark)
    (going : ∀ o, l.phase ≠ .ended o) : (p.move now l s).Sound := by
  refine ⟨?_, ?_, fun es hes => ⟨seen, page es hes⟩, fun o n mark ho => absurd ho (going o)⟩
  · change s.log.Numbered
    rw [log]
    exact h.numbered
  · rw [seen, if_pos rfl]
    exact mark

theorem seen_move_of_sights (h : Stride.sights (p.loop.phase.stride? l.phase) = true) :
    (p.move now l s).seen = true := by
  simp [move, h]

theorem seen_move_of_seen (h : p.seen = true) : (p.move now l s).seen = true := by
  simp [move, h]

/-- The step that records a fold. The watermark was behind the event, so it moves up to it. -/
theorem record {c c' : Cycle} {e : Event} {g : Page} (h : p.Sound)
    (was : p.loop.phase = .recording c e g) :
    (p.move now { p.loop with mark := e.position, phase := .between c' g }
      { p.shared with
        marks := p.shared.marks.advance now p.loop.handler.view e.position }).Sound := by
  obtain ⟨seen, rest, hrest⟩ := h.page (e :: g.rest) (by rw [was]; rfl)
  obtain ⟨hlt, hbehind, -⟩ := h.numbered.next hrest.symm
  have hmark : p.loop.mark = p.shared.marks.current p.loop.handler.view := h.mark_of_seen seen
  refine informed rfl (seen_move_of_seen seen) ?_ h (fun es hes => ?_) nofun
  · change e.position = (WatermarkTable.advance _ _ _ _).current _
    rw [WatermarkTable.current_advance]
    omega
  · cases hes
    change g.rest <+: p.shared.log.behind p.loop.handler.query e.position
    rw [hbehind]
    exact List.prefix_append ..

/-- **One step** keeps the mark of a loop in step with the watermark. -/
theorem step (h : p.Sound) (now : Instant) (stop : Bool) (v : Verdict) :
    (p.act (.step now stop v)).Sound := by
  have hleaves : (p.loop.step now stop v p.shared).loop.phase.inCycle = true ∨
      p.loop.Leaves p.shared (p.loop.step now stop v p.shared) := p.loop.step_leaves p.shared
  rcases hleaves with inside | hl
  · have hturn : Turn now v p.loop p.shared (p.loop.step now stop v p.shared).loop
        (p.loop.step now stop v p.shared).shared := p.loop.step_turn p.shared
    change (p.move now _ _).Sound
    generalize (p.loop.step now stop v p.shared).loop = l at hturn inside
    generalize (p.loop.step now stop v p.shared).shared = s at hturn
    cases hturn with
    | leave config handler out => rw [out] at inside; cases inside
    | spoil was failed config handler out => rw [out] at inside; cases inside
    | begin was =>
      exact h.stay rfl rfl rfl rfl rfl (by rw [was]; rfl) nofun
    | rebuild was => exact h.stay rfl rfl rfl rfl rfl (by rw [was]; rfl) nofun
    | resume was => exact h.stay rfl rfl rfl rfl rfl (by rw [was]; rfl) nofun
    | clear was => exact h.stay rfl rfl rfl rfl rfl (by rw [was]; rfl) nofun
    | drop was =>
      refine informed rfl (seen_move_of_sights (by rw [was]; rfl)) ?_ h nofun nofun
      exact (WatermarkTable.current_drop ..).symm
    | locate was =>
      refine informed rfl (seen_move_of_sights (by rw [was]; rfl)) rfl h (fun es hes => ?_) nofun
      cases hes
      exact List.nil_prefix
    | page was =>
      refine h.stay rfl rfl rfl rfl rfl (by rw [was]; rfl) fun es hes => ?_
      cases hes
      refine ⟨(h.page [] (by rw [was]; rfl)).1, ?_⟩
      exact List.take_prefix ..
    | more was done =>
      refine h.stay rfl rfl rfl rfl rfl (by rw [was]; rfl) fun es hes => ?_
      cases hes
      exact ⟨(h.page _ (by rw [was]; rfl)).1, List.nil_prefix⟩
    | take was next faces =>
      refine h.stay inside rfl rfl rfl rfl ?_ fun es hes => ?_
      · rw [Phase.stride?_of_facing faces]
        rfl
      · cases (Phase.ahead?_of_facing faces).symm.trans hes
        exact h.page _ (by rw [was, ← next]; rfl)
    | keep was faces =>
      refine h.stay inside rfl rfl rfl rfl ?_ fun es hes => ?_
      · rw [Phase.stride?_of_facing faces]
        rfl
      · cases (Phase.ahead?_of_facing faces).symm.trans hes
        exact h.page _ (Phase.ahead?_of_facing was)
    | read was =>
      refine h.stay rfl rfl rfl rfl rfl (by rw [was]; rfl) fun es hes => ?_
      cases hes
      exact h.page _ (by rw [was]; rfl)
    | write was ok =>
      refine h.stay rfl rfl rfl rfl rfl (by rw [was]; rfl) fun es hes => ?_
      cases hes
      exact h.page _ (by rw [was]; rfl)
    | record was => exact h.record was
  · exact h.leave hl

theorem append (h : p.Sound) (a : Attempt) : (p.act (.append a)).Sound where
  numbered := h.numbered.land a
  mark := h.mark
  page := fun es hes =>
    ⟨(h.page es hes).1, (h.page es hes).2.trans (EventLog.behind_prefix Attempt.prefix_land)⟩
  report := h.report

theorem others (h : p.Sound) (leases : LeaseTable) (marks : WatermarkTable) (views : σ) :
    (p.act (.others leases marks views)).Sound := by
  unfold act
  dsimp only
  split
  · rename_i hcurrent
    refine ⟨h.numbered, ?_, h.page, h.report⟩
    change p.loop.mark = if p.seen then marks.current p.loop.handler.view else 0
    rw [hcurrent]
    exact h.mark
  · exact h

theorem act (h : p.Sound) : (a : Act σ) → (p.act a).Sound
  | .step now stop v => h.step now stop v
  | .append a => h.append a
  | .others leases marks views => h.others leases marks views

theorem run (h : p.Sound) (acts : List (Act σ)) : (p.run acts).Sound := by
  induction acts generalizing p with
  | nil => exact h
  | cons a acts ih => exact ih (h.act a)

end Sound

theorem sound_start {s : Shared σ} (n : s.log.Numbered) (config : LoopConfig) (handler : Handler σ)
    (b : Board) : (start config handler s b).Sound :=
  ⟨n, rfl, nofun, nofun⟩

/-! ## Reports -/

/-- If its cycle has ended, the loop reports the watermark as it is kept. -/
def Truthful (p : Reporter σ) : Prop :=
  ∀ o n mark, p.loop.phase = .ended o → o.report? = some (n, mark) → mark = p.persisted

/-- What is said of a loop whose cycle has ended with the outcome `o`, which reports `mark`. -/
structure Reports (p : Reporter σ) (o : Outcome) (n : Nat) (mark : Int) : Prop where
  /-- It reports the watermark as it is kept exactly if it has seen it since it started, or if that
  is zero. -/
  exact_iff : mark = p.persisted ↔ p.seen = true ∨ p.persisted = 0
  /-- A loop that has not seen the watermark reports zero, and the call that failed. -/
  unseen : p.seen = false → ∃ err, o = .halted 0 0 err
  /-- Its next step publishes what is reported, and leaves the watermark alone. -/
  published : ∀ now stop v, let p' := p.act (.step now stop v)
    p'.persisted = p.persisted ∧
      ∃ status, p'.board.get? p.loop.handler.view = some status ∧
        status.mark = mark ∧ status.processedLastCycle = n

end Reporter

theorem Status.after_of_report {o : Outcome} {n : Nat} {mark : Int}
    (h : o.report? = some (n, mark)) (now : Instant) (st : Status) :
    (st.after now o).mark = mark ∧ (st.after now o).processedLastCycle = n := by
  cases o <;> cases h <;> exact ⟨rfl, rfl⟩

namespace Reporter

variable {σ : Type}

theorem Sound.reports {p : Reporter σ} {o : Outcome} {n : Nat} {mark : Int} (h : p.Sound)
    (ended : p.loop.phase = .ended o) (report : o.report? = some (n, mark)) :
    p.Reports o n mark := by
  obtain ⟨rfl, hfirst⟩ := h.report o n mark ended report
  refine ⟨?_, fun hnot => ?_, fun now stop v => ?_⟩
  · rw [h.mark]
    cases p.seen <;> simp [eq_comm]
  · obtain ⟨err, rfl⟩ := hfirst hnot
    rw [h.mark, hnot]
    exact ⟨err, rfl⟩
  · have hstep : p.loop.step now stop v p.shared = ⟨p.loop.rest now o, p.shared, []⟩ := by
      unfold ViewLoop.step
      rw [ended]
    have hact : p.act (.step now stop v) = p.move now (p.loop.rest now o) p.shared := by
      change p.move now _ _ = _
      rw [hstep]
    rw [hact]
    refine ⟨rfl, ((p.board.get? p.loop.handler.view).getD {}).after now o, ?_,
      Status.after_of_report report now _⟩
    change (p.loop.phase.publish now p.loop.handler.view p.board).get? _ = _
    rw [ended]
    exact Index.get?_insert_self ..

/-- **Reports.** A loop has just been created, over any log that counts its events and with any
watermark. Others append, and write what they like but the watermark of the view; any call of the
loop may fail, in any cycle. Whenever a cycle has ended with a report, the loop reports and
publishes the watermark as it is kept, exactly if it has read or dropped it in this cycle or in an
earlier one, or if the watermark is zero. -/
theorem reports_run {s : Shared σ} (numbered : s.log.Numbered) (config : LoopConfig)
    (handler : Handler σ) (b : Board) (acts : List (Act σ)) {o : Outcome} {n : Nat} {mark : Int}
    (ended : ((start config handler s b).run acts).loop.phase = .ended o)
    (report : o.report? = some (n, mark)) :
    ((start config handler s b).run acts).Reports o n mark :=
  ((sound_start numbered config handler b).run acts).reports ended report

/-- The third event cannot be folded. The loop found the watermark at one and has moved it to two,
and that is what it reports. -/
theorem reports_run_halted :
    let handler : Handler Recording :=
      Recording.handler "seen" Filter.all ⟨id, fun r _ => r⟩ (Duration.ofSecs 1)
    let draft : Draft := ⟨Uuid.nil, "counter.moved", .obj [], "eve", ⟨0⟩⟩
    let counter : Stream := { kind := "counter", id := "c", owner := "acme" }
    let s : Shared Recording :=
      { log := EventLog.empty.tried [⟨counter, 0, [draft, draft, draft], 3⟩]
        marks := WatermarkTable.advance Index.empty ⟨0⟩ "seen" 1
        views := { refuseAt := some 3 } }
    let acts : List (Act Recording) := List.replicate 12 (.step ⟨0⟩ false .pass)
    let p := (start { holder := "a" } handler s Index.empty).run acts
    let o : Outcome := .halted 1 2 (.violation (.refused 3))
    s.log.Numbered ∧ p.loop.phase = .ended o ∧ p.seen = true ∧ p.persisted = 2 ∧
      p.Reports o 1 2 := by
  intro handler draft counter s acts p o
  have numbered : s.log.Numbered := (EventLog.numbered_of_events_eq_nil rfl).tried _
  have ended : p.loop.phase = .ended o := Phase.eq_ended_of_outcome? (by decide +kernel)
  exact ⟨numbered, ended, by decide +kernel, by decide +kernel,
    reports_run numbered { holder := "a" } handler Index.empty acts ended rfl⟩

/-- **Before the first look.** A loop whose first renewal fails reports zero, whatever the watermark
is. -/
theorem phase_of_failed_renewal (config : LoopConfig) (handler : Handler σ) (s : Shared σ)
    (b : Board) (now : Instant) {err : Error} (h : err.isLockHeld = false) :
    ((start config handler s b).run [.step now false .pass, .step now false (.fail err)]).loop.phase
      = .ended (.halted 0 0 err) := by
  cases err <;> first | rfl | cases h

/-- The view has folded the whole log, and is at watermark one. Its loop starts again and cannot
reach the leases: it reports zero. -/
theorem not_truthful_of_failed_renewal :
    let handler : Handler Recording :=
      Recording.handler "seen" Filter.all ⟨id, fun r _ => r⟩ (Duration.ofSecs 1)
    let draft : Draft := ⟨Uuid.nil, "counter.moved", .obj [], "eve", ⟨0⟩⟩
    let counter : Stream := { kind := "counter", id := "c", owner := "acme" }
    let s : Shared Recording :=
      { log := EventLog.empty.tried [⟨counter, 0, [draft], 1⟩]
        marks := WatermarkTable.advance Index.empty ⟨0⟩ "seen" 1
        views := {} }
    let p := (start { holder := "a" } handler s Index.empty).run
      [.step ⟨0⟩ false .pass, .step ⟨0⟩ false (.fail (.infrastructure .viewUnavailable))]
    p.persisted = 1 ∧ ¬p.Truthful := by
  intro handler draft counter s p
  have hpersisted : p.persisted = 1 := by decide +kernel
  have ended : p.loop.phase = .ended (.halted 0 0 (.infrastructure .viewUnavailable)) :=
    phase_of_failed_renewal { holder := "a" } handler s Index.empty ⟨0⟩ rfl
  refine ⟨hpersisted, fun h => ?_⟩
  have hzero : 0 = p.persisted := h _ 0 0 ended rfl
  rw [hpersisted] at hzero
  cases hzero

end Reporter
end Chronicle
