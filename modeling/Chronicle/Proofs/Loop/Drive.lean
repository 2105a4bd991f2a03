import Chronicle.Proofs.Loop.Position
import Chronicle.Proofs.View.Rooted
/-!
# Loops that are left alone

Between the steps of a loop nothing need happen. A loop that is left alone takes its lease, reads
one page and folds event after event of it, up to the end of the page or to an event that it cannot
fold.

* `ViewLoop.Leads`: where the steps of a loop lead that is left alone;
* `Fleet.exists_run_of_leads`: the fleet around such a loop;
* `ViewKind.Abreast`: a loop between two events, with everything before them folded and recorded;
* **`ViewKind.Abreast.reach`**: such a loop gets to any event before which no row ends;
* **`ViewKind.Abreast.finish`**: it gets to the end of its cycle, and then nothing more can be folded.
-/

namespace Chronicle

@[simp] theorem Instant.since_self (t : Instant) : t.since t = 0 := by
  unfold since
  omega

namespace ViewLoop

variable {σ : Type} {now : Instant} {l l₁ l₂ : ViewLoop σ} {s s₁ s₂ : Shared σ}

/-- Where steps of a loop at `now` lead, if their calls pass. -/
inductive Leads (now : Instant) : ViewLoop σ → Shared σ → ViewLoop σ → Shared σ → Prop where
  | stay (l : ViewLoop σ) (s : Shared σ) : Leads now l s l s
  | step {l l' : ViewLoop σ} {s s' : Shared σ}
      (h : Leads now (l.step now false .pass s).loop (l.step now false .pass s).shared l' s') :
      Leads now l s l' s'

theorem Leads.trans (h : Leads now l s l₁ s₁) (h' : Leads now l₁ s₁ l₂ s₂) :
    Leads now l s l₂ s₂ := by
  induction h with
  | stay l s => exact h'
  | step h ih => exact .step (ih h')

/-- One step, and where it leads. -/
theorem Leads.cons {notices : List Notice}
    (h : l.step now false .pass s = ⟨l₁, s₁, notices⟩) (h' : Leads now l₁ s₁ l₂ s₂) :
    Leads now l s l₂ s₂ := by
  refine .step ?_
  rw [h]
  exact h'

/-! ## Steps -/

section steps

variable {c : Cycle} {e : Event} {es : List Event} {p : Page} {f : Fold σ} {size : Nat}
  {leases : LeaseTable} {err : Error}

theorem step_ready (h : l.phase = .ready) :
    l.step now false .pass s = ⟨{ l with phase := .acquiring }, s, []⟩ := by
  unfold step
  rw [h]
  rfl

theorem step_acquiring (h : l.phase = .acquiring)
    (lease : s.leases.renew now l.config.holder l.handler.view l.config.lockWait = .ok leases) :
    l.step now false .pass s
      = ⟨{ l with phase := .checkingReset ⟨now, 0⟩ }, { s with leases := leases }, []⟩ := by
  unfold step
  rw [h]
  dsimp only
  unfold acquire
  rw [lease]
  rfl

theorem step_checkingReset (h : l.phase = .checkingReset c)
    (idle : s.marks.resetRequested l.handler.view = false) :
    l.step now false .pass s = ⟨{ l with phase := .locating c }, s, []⟩ := by
  unfold step
  rw [h]
  dsimp only
  rw [idle]
  rfl

theorem step_locating (h : l.phase = .locating c) :
    l.step now false .pass s
      = ⟨{ l with mark := s.marks.current l.handler.view, phase := .paging c }, s, []⟩ := by
  unfold step
  rw [h]
  rfl

theorem step_paging (h : l.phase = .paging c) (page : s.log.query l.pageFilter = es) :
    l.step now false .pass s = ⟨{ l with phase := .between c ⟨es, es.length⟩ }, s, []⟩ := by
  subst page
  unfold step
  rw [h]
  rfl

theorem step_next (h : l.phase = .between c ⟨e :: es, size⟩) (prompt : l.handler.delay.nanos = 0)
    (early : now.since c.renewedAt < l.config.heartbeat.nanos) :
    l.step now false .pass s = ⟨{ l with phase := .folding c e ⟨es, size⟩ }, s, []⟩ := by
  unfold step
  rw [h]
  dsimp only
  unfold turn foldPhase
  dsimp only
  rw [if_neg (by omega), if_pos prompt]
  rfl

theorem step_late (h : l.phase = .between c ⟨e :: es, size⟩)
    (late : l.config.heartbeat.nanos ≤ now.since c.renewedAt) :
    l.step now false .pass s = ⟨{ l with phase := .renewing c e ⟨es, size⟩ }, s, []⟩ := by
  unfold step
  rw [h]
  exact if_pos late

theorem step_folding (h : l.phase = .folding c e p) :
    l.step now false .pass s
      = ⟨{ l with phase := .writing c e p (l.handler.fold s.views e) }, s,
          (l.handler.fold s.views e).notices⟩ := by
  unfold step
  rw [h]
  rfl

theorem step_writing (h : l.phase = .writing c e p f) (ok : f.error = none) :
    l.step now false .pass s
      = ⟨{ l with phase := .recording c e p }, { s with views := f.write s.views }, []⟩ := by
  unfold step
  rw [h]
  dsimp only
  rw [ok]
  rfl

theorem step_recording (h : l.phase = .recording c e p) :
    l.step now false .pass s
      = ⟨{ l with
          mark := e.position
          phase := .between { c with processed := c.processed + 1 } p },
        { s with marks := s.marks.advance now l.handler.view e.position }, []⟩ := by
  unfold step
  rw [h]
  rfl

/-- A fold that ends in an error ends the cycle. -/
theorem step_spoiled (now : Instant) (s : Shared σ) (h : l.phase = .writing c e p f)
    (failed : f.error = some err) :
    ∃ notices, l.step now false .pass s
      = ⟨{ l with phase := .ended (.halted c.processed l.mark err) },
          { s with views := f.write s.views }, notices⟩ := by
  refine ⟨.foldFailed e.position e.tag err :: haltNotices err, ?_⟩
  unfold step
  rw [h]
  dsimp only
  rw [failed]
  rfl

/-- The end of a page that is not full ends the cycle. -/
theorem step_finished (now : Instant) (s : Shared σ) (h : l.phase = .between c ⟨[], size⟩)
    (short : size < l.config.batchSize) :
    ∃ notices, l.step now false .pass s
      = ⟨{ l with phase := .ended (.caughtUp c.processed l.mark) }, s, notices⟩ := by
  have hturn : l.turn s now c ⟨[], size⟩ = l.finish s c := if_pos short
  refine ⟨(l.finish s c).notices, ?_⟩
  unfold step
  rw [h]
  exact hturn

/-- A lease that cannot be renewed ends the cycle. -/
theorem step_held (h : l.phase = .renewing c e p)
    (held : s.leases.renew now l.config.holder l.handler.view l.config.lockWait = .error err) :
    ∃ notices, l.step now false .pass s
      = ⟨{ l with phase := .ended (.halted c.processed l.mark err) }, s, notices⟩ := by
  refine ⟨haltNotices err, ?_⟩
  unfold step
  rw [h]
  dsimp only
  rw [held]
  rfl

end steps

/-! ## Parts of a cycle -/

section cycle

variable {c : Cycle} {e : Event} {es : List Event} {p : Page} {f : Fold σ} {size : Nat}
  {leases : LeaseTable} {err : Error}

/-- From the start of a cycle to its page. -/
theorem leads_page (ready : l.phase = .ready)
    (lease : s.leases.renew now l.config.holder l.handler.view l.config.lockWait = .ok leases)
    (idle : s.marks.resetRequested l.handler.view = false)
    (page : (s.log.behind l.handler.query (s.marks.current l.handler.view)).take l.config.batchSize
      = es) :
    Leads now l s
      { l with
        mark := s.marks.current l.handler.view
        phase := .between ⟨now, 0⟩ ⟨es, es.length⟩ }
      { s with leases := leases } := by
  refine .cons (step_ready ready) (.cons (step_acquiring rfl lease) ?_)
  refine .cons (step_checkingReset rfl idle) (.cons (step_locating rfl) ?_)
  exact .cons (step_paging rfl page) (.stay ..)

/-- From between two events to the write of the second one. -/
theorem leads_writing (between : l.phase = .between c ⟨e :: es, size⟩)
    (prompt : l.handler.delay.nanos = 0)
    (early : now.since c.renewedAt < l.config.heartbeat.nanos) :
    Leads now l s
      { l with phase := .writing c e ⟨es, size⟩ (l.handler.fold s.views e) } s :=
  .cons (step_next between prompt early) (.cons (step_folding rfl) (.stay ..))

/-- From a write to behind its recording. -/
theorem leads_recorded (writing : l.phase = .writing c e p f) (ok : f.error = none) :
    Leads now l s
      { l with
        mark := e.position
        phase := .between { c with processed := c.processed + 1 } p }
      { s with
        views := f.write s.views
        marks := s.marks.advance now l.handler.view e.position } :=
  .cons (step_writing writing ok) (.cons (step_recording rfl) (.stay ..))

/-- A fold that ends in an error ends the cycle. -/
theorem leads_spoiled (now : Instant) (s : Shared σ) (writing : l.phase = .writing c e p f)
    (failed : f.error = some err) :
    ∃ o, Leads now l s { l with phase := .ended o } { s with views := f.write s.views } := by
  obtain ⟨notices, h⟩ := step_spoiled now s writing failed
  exact ⟨_, .cons h (.stay ..)⟩

/-- The end of a page that is not full ends the cycle. -/
theorem leads_finished (now : Instant) (s : Shared σ) (between : l.phase = .between c ⟨[], size⟩)
    (short : size < l.config.batchSize) : ∃ o, Leads now l s { l with phase := .ended o } s := by
  obtain ⟨notices, h⟩ := step_finished now s between short
  exact ⟨_, .cons h (.stay ..)⟩

/-- A cycle that cannot renew its lease ends before the next fold. -/
theorem leads_halted (between : l.phase = .between c ⟨e :: es, size⟩)
    (late : l.config.heartbeat.nanos ≤ now.since c.renewedAt)
    (held : s.leases.renew now l.config.holder l.handler.view l.config.lockWait = .error err) :
    ∃ o, Leads now l s { l with phase := .ended o } s := by
  obtain ⟨notices, h⟩ := step_held (l := { l with phase := .renewing c e ⟨es, size⟩ }) rfl held
  exact ⟨_, .cons (step_late between late) (.cons h (.stay ..))⟩

/-- From a write that comes late to the end of the cycle: the lease is another loop's by then. -/
theorem leads_late (writing : l.phase = .writing c e ⟨es, size⟩ f) (ok : f.error = none)
    (short : size < l.config.batchSize)
    (late : l.config.heartbeat.nanos ≤ now.since c.renewedAt)
    (held : s.leases.renew now l.config.holder l.handler.view l.config.lockWait = .error err) :
    ∃ l', l'.phase.inCycle = false ∧ Leads now l s l'
      { s with
        views := f.write s.views
        marks := s.marks.advance now l.handler.view e.position } := by
  have hlead : Leads now l s _ _ := leads_recorded writing ok
  cases es with
  | nil =>
    obtain ⟨o, hend⟩ := leads_finished now _ (l := { l with
      mark := e.position
      phase := .between { c with processed := c.processed + 1 } ⟨[], size⟩ }) rfl short
    exact ⟨_, rfl, hlead.trans hend⟩
  | cons a es =>
    obtain ⟨o, hend⟩ := leads_halted (l := { l with
      mark := e.position
      phase := .between { c with processed := c.processed + 1 } ⟨a :: es, size⟩ })
      (s := { s with
        views := f.write s.views
        marks := s.marks.advance now l.handler.view e.position }) rfl late held
    exact ⟨_, rfl, hlead.trans hend⟩

end cycle
end ViewLoop

/-- Steps of one loop alone, among the loops of a fleet. -/
theorem Fleet.exists_run_of_leads {ι σ : Type} [DecidableEq ι] {f : Fleet ι σ} {i : ι}
    {now : Instant} {l l' : ViewLoop σ} {s s' : Shared σ} (hnow : f.now = now)
    (hl : f.loops i = l) (hs : f.shared = s) (h : ViewLoop.Leads now l s l' s') :
    ∃ n, f.run (List.replicate n (.step i false .pass)) = f.put i l' s' := by
  induction h generalizing f with
  | stay l s =>
    subst hl hs
    refine ⟨0, ?_⟩
    unfold put
    rw [Function.update_eq_self]
    rfl
  | @step l l' s s' h ih =>
    have hact : f.act (.step i false .pass)
        = f.put i (l.step now false .pass s).loop (l.step now false .pass s).shared := by
      rw [← hl, ← hs, ← hnow]
      rfl
    obtain ⟨n, hn⟩ := ih (f := f.put i _ _) hnow (Function.update_self ..) rfl
    refine ⟨n + 1, ?_⟩
    rw [List.replicate_succ]
    change (f.act (.step i false .pass)).run _ = _
    rw [hact, hn]
    unfold put
    rw [Function.update_idem]

/-! ## A loop on a view -/

namespace ViewKind

variable {v : ViewKind} {now : Instant} {l l' l₁ : ViewLoop Stores} {s s' s₁ : Shared Stores}
  {e : Event} {es pre : List Event}

/-- Nothing more can be folded. -/
def Stuck (v : ViewKind) (s : Shared Stores) : Prop :=
  ∀ e rest, s.log.behind v.query (v.mark s) = e :: rest →
    ∀ t, v.projection.fold (v.rows s.views) e ≠ .ok t

/-- A loop between two events of a page that is all there is to fold. The rows are up to the
watermark, and the lease was renewed just now. -/
structure Abreast (v : ViewKind) (now : Instant) (l : ViewLoop Stores) (s : Shared Stores)
    (es : List Event) : Prop where
  numbered : s.log.Numbered
  handler : ∃ cycle, l.handler = v.handler cycle Duration.zero
  upTo : v.UpTo s (v.mark s)
  behind : s.log.behind v.query (v.mark s) = es
  between : ∃ done size, l.phase = .between ⟨now, done⟩ ⟨es, size⟩ ∧ size < l.config.batchSize
  lasts : 0 < l.config.heartbeat.nanos

/-- A loop is set up as it was, log and leases are the same, and a view is to be built again if it
was before. -/
structure Beside (v : ViewKind) (l : ViewLoop Stores) (s : Shared Stores) (l' : ViewLoop Stores)
    (s' : Shared Stores) : Prop where
  config : l'.config = l.config
  handler : l'.handler = l.handler
  log : s'.log = s.log
  leases : s'.leases = s.leases
  pending : v.pending s' ↔ v.pending s

theorem Beside.trans (h : v.Beside l s l₁ s₁) (h' : v.Beside l₁ s₁ l' s') : v.Beside l s l' s' :=
  ⟨h'.config.trans h.config, h'.handler.trans h.handler, h'.log.trans h.log,
    h'.leases.trans h.leases, h'.pending.trans h.pending⟩

/-- A loop that starts a cycle is soon between two events of a page. -/
theorem exists_abreast (now : Instant) (ready : l.phase = .ready) (numbered : s.log.Numbered)
    (handler : ∃ cycle, l.handler = v.handler cycle Duration.zero)
    (upTo : v.UpTo s (v.mark s)) (idle : ¬v.pending s) {leases : LeaseTable}
    (lease : s.leases.renew now l.config.holder v.view l.config.lockWait = .ok leases)
    (large : s.log.events.length < l.config.batchSize) (lasts : 0 < l.config.heartbeat.nanos) :
    ∃ l', ViewLoop.Leads now l s l' { s with leases := leases } ∧
      l'.config = l.config ∧ l'.handler = l.handler ∧
      v.Abreast now l' { s with leases := leases } (s.log.behind v.query (v.mark s)) := by
  obtain ⟨cycle, hh⟩ := handler
  have hview : l.handler.view = v.view := by rw [hh, handler_view]
  have hquery : l.handler.query = v.query := by rw [hh, handler_query]
  have hlength : (s.log.behind v.query (v.mark s)).length < l.config.batchSize :=
    Nat.lt_of_le_of_lt (List.length_filter_le ..) large
  have hpage : (s.log.behind l.handler.query (s.marks.current l.handler.view)).take
      l.config.batchSize = s.log.behind v.query (v.mark s) := by
    rw [hview, hquery]
    exact List.take_of_length_le (Nat.le_of_lt hlength)
  have hidle : s.marks.resetRequested l.handler.view = false := by
    rw [hview]
    exact Bool.eq_false_iff.2 idle
  rw [← hview] at lease
  exact ⟨_, ViewLoop.leads_page ready lease hidle hpage, rfl, rfl, numbered, ⟨cycle, hh⟩, upTo, rfl,
    ⟨0, _, rfl, hlength⟩, lasts⟩

/-- A loop that is abreast of an event gets to its write. -/
theorem Abreast.writing (h : v.Abreast now l s (e :: es)) :
    ∃ done size, ViewLoop.Leads now l s
        { l with phase := .writing ⟨now, done⟩ e ⟨es, size⟩ (l.handler.fold s.views e) } s ∧
      size < l.config.batchSize := by
  obtain ⟨cycle, hh⟩ := h.handler
  obtain ⟨done, size, hp, hsize⟩ := h.between
  have hprompt : l.handler.delay.nanos = 0 := by
    rw [hh]
    rfl
  refine ⟨done, size, ViewLoop.leads_writing hp hprompt ?_, hsize⟩
  rw [now.since_self]
  exact h.lasts

/-- A loop that is abreast of an event that can be folded gets abreast of the next one. -/
theorem Abreast.fold (h : v.Abreast now l s (e :: es)) {t : Table v.Key v.Entry}
    (hf : v.projection.fold (v.rows s.views) e = .ok t) :
    ∃ l' s', ViewLoop.Leads now l s l' s' ∧ v.Beside l s l' s' ∧ v.Abreast now l' s' es ∧
      v.mark s' = e.position := by
  obtain ⟨cycle, hh⟩ := h.handler
  obtain ⟨done, size, hlead, hsize⟩ := h.writing
  obtain ⟨hlt, hbehind, hcovered⟩ := h.numbered.next h.behind
  obtain ⟨edit, hedit, happly⟩ := Projection.fold_eq_ok hf
  obtain ⟨hok, hwrite⟩ := handler_fold_of_edit (v := v) hedit
  rw [← hh] at hok hwrite
  have hview : l.handler.view = v.view := by rw [hh, handler_view]
  have hmark : v.mark { s with
      views := (l.handler.fold s.views e).write s.views
      marks := s.marks.advance now l.handler.view e.position } = e.position := by
    have hmax : (s.marks.advance now l.handler.view e.position).current v.view
        = max (s.marks.current v.view) e.position := by
      rw [hview, WatermarkTable.current_advance]
    exact hmax.trans (Int.max_eq_right (Int.le_of_lt hlt))
  refine ⟨_, _, hlead.trans (ViewLoop.leads_recorded rfl hok), ⟨rfl, rfl, rfl, rfl, ?_⟩, ?_, hmark⟩
  · change (WatermarkTable.advance _ _ l.handler.view _).resetRequested v.view = true ↔ _
    rw [hview, WatermarkTable.resetRequested_advance]
    exact Iff.rfl
  · refine ⟨h.numbered, ⟨cycle, hh⟩, ?_, ?_, ⟨done + 1, size, rfl, hsize⟩, h.lasts⟩
    · rw [hmark]
      unfold UpTo
      dsimp only
      rw [hwrite, happly, hcovered, Projection.rowsAfter_concat h.upTo, hf]
    · rw [hmark]
      exact hbehind

/-- **Getting there.** A loop gets abreast of any event before which no row ends. -/
theorem Abreast.reach (h : v.Abreast now l s (pre ++ e :: es)) (rooted : v.Rooted s.log)
    (hd : ∀ e' ∈ s.log.covered v.query (v.mark s) ++ pre, ¬v.projection.Drops e') :
    ∃ l' s', ViewLoop.Leads now l s l' s' ∧ v.Beside l s l' s' ∧ v.Abreast now l' s' (e :: es) ∧
      s'.log.covered v.query (v.mark s') = s.log.covered v.query (v.mark s) ++ pre := by
  induction pre generalizing l s with
  | nil => exact ⟨l, s, .stay .., ⟨rfl, rfl, rfl, rfl, Iff.rfl⟩, h, (List.append_nil _).symm⟩
  | cons a pre ih =>
    obtain ⟨t, hf⟩ := rooted.fold h.numbered h.behind h.upTo
      fun e' he' => hd e' (List.mem_append_left _ he')
    obtain ⟨l₁, s₁, hlead, hbeside, h₁, hmark⟩ := h.fold hf
    have hcovered : s₁.log.covered v.query (v.mark s₁) ++ pre
        = s.log.covered v.query (v.mark s) ++ a :: pre := by
      rw [hbeside.log, hmark, (h.numbered.next h.behind).2.2, ← List.append_cons]
    obtain ⟨l', s', hlead', hbeside', h', hcovered'⟩ := ih h₁ (by rw [hbeside.log]; exact rooted)
      (by rw [hcovered]; exact hd)
    exact ⟨l', s', hlead.trans hlead', hbeside.trans hbeside', h', hcovered'.trans hcovered⟩

/-- **The end.** A loop gets to the end of its cycle, and then nothing more can be folded. -/
theorem Abreast.finish (h : v.Abreast now l s es) :
    ∃ l' s', ViewLoop.Leads now l s l' s' ∧ v.Beside l s l' s' ∧ l'.phase.inCycle = false ∧
      v.UpTo s' (v.mark s') ∧ v.Stuck s' := by
  induction es generalizing l s with
  | nil =>
    obtain ⟨done, size, hp, hsize⟩ := h.between
    obtain ⟨o, hlead⟩ := ViewLoop.leads_finished now s hp hsize
    refine ⟨_, s, hlead, ⟨rfl, rfl, rfl, rfl, Iff.rfl⟩, rfl, h.upTo, ?_⟩
    intro e rest hb
    rw [h.behind] at hb
    cases hb
  | cons e es ih =>
    cases hf : v.projection.fold (v.rows s.views) e with
    | ok t =>
      obtain ⟨l₁, s₁, hlead, hbeside, h₁, -⟩ := h.fold hf
      obtain ⟨l', s', hlead', hbeside', h'⟩ := ih h₁
      exact ⟨l', s', hlead.trans hlead', hbeside.trans hbeside', h'⟩
    | error err =>
      obtain ⟨cycle, hh⟩ := h.handler
      obtain ⟨done, size, hlead, -⟩ := h.writing
      obtain ⟨herr, hid⟩ := handler_fold_of_error (Projection.fold_eq_error hf)
      rw [← hh] at herr hid
      obtain ⟨o, hlead'⟩ := ViewLoop.leads_spoiled now s
        (l := { l with phase := .writing ⟨now, done⟩ e ⟨es, size⟩ (l.handler.fold s.views e) }) rfl herr
      rw [hid] at hlead'
      refine ⟨_, s, hlead.trans hlead', ⟨rfl, rfl, rfl, rfl, Iff.rfl⟩, rfl,
        h.upTo, ?_⟩
      intro e' rest hb t ht
      cases h.behind.symm.trans hb
      rw [hf] at ht
      cases ht

end ViewKind
end Chronicle
