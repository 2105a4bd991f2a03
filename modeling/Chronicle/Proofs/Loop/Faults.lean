import Chronicle.Proofs.Loop.Position
/-!
# A view under faults

Loops on one view whose cycles do not overlap keep the view in step with its watermark, whatever
happens to their calls: any of them may fail, and any loop may be cut off between two of them. A
request to build the view again suspends this, until the view is empty and has no watermark.

* `ViewKind.Sound`: what a loop in a cycle relies on;
* `Fleet.Safe`: the invariant, and **`Fleet.Safe.turn`**: a step keeps it;
* **`ViewKind.inStep_of_run`**: the view is in step, or is to be built again.
-/

namespace Chronicle

variable {v : ViewKind}

/-! ## What a loop relies on -/

/-- What a loop relies on while the view need not be built again and no other loop is in a cycle:
its page is what comes behind the watermark, and its fold was decided on the rows as they are. -/
def ViewKind.Sound (v : ViewKind) (l : ViewLoop Stores) (s : Shared Stores) : Prop :=
  match l.phase with
  | .clearing _ => False
  | .dropping _ => False
  | .paging _ => l.mark = v.mark s
  | .between _ p => l.mark = v.mark s ∧ p.rest <+: s.log.behind v.query (v.mark s)
  | .renewing _ e p => e :: p.rest <+: s.log.behind v.query (v.mark s)
  | .waiting _ _ e p => e :: p.rest <+: s.log.behind v.query (v.mark s)
  | .folding _ e p => e :: p.rest <+: s.log.behind v.query (v.mark s)
  | .writing _ e p f =>
    e :: p.rest <+: s.log.behind v.query (v.mark s) ∧ f = l.handler.fold s.views e
  | .recording _ e p =>
    e :: p.rest <+: s.log.behind v.query (v.mark s) ∧ v.UpTo s e.position
  | _ => True

namespace ViewKind

variable {l l' : ViewLoop Stores} {s s' : Shared Stores}

theorem sound_of_not_inCycle (h : l.phase.inCycle = false) : v.Sound l s := by
  unfold Sound
  cases hp : l.phase <;> first | trivial | (rw [hp] at h; cases h)

theorem sound_iff_of_facing {e : Event} {p : Page} (h : l.phase.facing? = some (e, p)) :
    v.Sound l s ↔ e :: p.rest <+: s.log.behind v.query (v.mark s) := by
  unfold Sound
  cases hp : l.phase <;> rw [hp] at h <;> cases h <;> rfl

/-- A loop relies on nothing but the log, the watermarks and the rows. -/
theorem sound_congr (hl : s'.log = s.log) (hm : s'.marks = s.marks) (hv : s'.views = s.views) :
    v.Sound l s' ↔ v.Sound l s := by
  unfold Sound UpTo mark
  rw [hl, hm, hv]

/-- What a loop relies on stays true while the log grows. -/
theorem Sound.grow (h : v.Sound l s) (n₀ : s.log.Numbered) (n : s'.log.Numbered)
    (hlog : s.log.events <+: s'.log.events) (hm : s'.marks = s.marks)
    (hv : s'.views = s.views) : v.Sound l s' := by
  have hmark : v.mark s' = v.mark s := by
    unfold mark
    rw [hm]
  have hb := EventLog.behind_prefix (q := v.query) (w := v.mark s) hlog
  unfold Sound at h ⊢
  cases hp : l.phase <;> simp only [hp] at h ⊢ <;> rw [hmark]
  case paging c => exact h
  case between c p => exact ⟨h.1, h.2.trans hb⟩
  case renewing c e p => exact h.trans hb
  case waiting wake c e p => exact h.trans hb
  case folding c e p => exact h.trans hb
  case writing c e p f => exact ⟨h.1.trans hb, by rw [hv]; exact h.2⟩
  case recording c e p =>
    have he := EventLog.mem_behind_iff.1 (h.1.subset List.mem_cons_self)
    exact ⟨h.1.trans hb, h.2.grow n hlog (n₀.position_le he.1) hv⟩

end ViewKind

/-! ## The invariant -/

namespace Fleet

variable {ι : Type} [DecidableEq ι] {f : Fleet ι Stores} {i : ι} {verdict : Verdict}
  {l' : ViewLoop Stores} {s' : Shared Stores}

/-- What holds of a fleet on `v` whose loops are never two in a cycle. -/
structure Safe (v : ViewKind) (f : Fleet ι Stores) : Prop where
  numbered : f.shared.log.Numbered
  handler : ∀ i, ∃ cycle delay, (f.loops i).handler = v.handler cycle delay
  /-- Between clearing the view and dropping its watermark the view is empty. -/
  cleared : ∀ i c, (f.loops i).phase = .dropping c → v.rows f.shared.views = Index.empty
  /-- The view is to be built again, or it is in step and every loop may rely on that. -/
  inStep : v.pending f.shared ∨
    v.InStep f.shared ∧ v.mark f.shared ≤ f.shared.log.events.length ∧
      ∀ i, v.Sound (f.loops i) f.shared

omit [DecidableEq ι] in
theorem Apart.not_inCycle (ha : f.Apart) (hi : (f.loops i).phase.inCycle = true) {j : ι}
    (hj : j ≠ i) : (f.loops j).phase.inCycle = false := by
  cases h : (f.loops j).phase.inCycle with
  | false => rfl
  | true => exact absurd (ha j i h hi) hj

/-- A step that leaves log, watermarks and rows as they are. -/
theorem Safe.frame (h : f.Safe v) (hl : s'.log = f.shared.log) (hm : s'.marks = f.shared.marks)
    (hv : s'.views = f.shared.views) (hh : l'.handler = (f.loops i).handler)
    (hd : ∀ c, l'.phase ≠ .dropping c)
    (hs : ¬v.pending f.shared → v.Sound (f.loops i) f.shared → v.Sound l' f.shared) :
    (f.put i l' s').Safe v := by
  have hpending : v.pending s' ↔ v.pending f.shared := by
    unfold ViewKind.pending
    rw [hm]
  have hmark : v.mark s' = v.mark f.shared := by
    unfold ViewKind.mark
    rw [hm]
  constructor
  · change s'.log.Numbered
    rw [hl]
    exact h.numbered
  · refine (Function.forall_update_iff f.loops
      fun _ l => ∃ cycle delay, l.handler = v.handler cycle delay).2 ⟨?_, fun j _ => h.handler j⟩
    rw [hh]
    exact h.handler i
  · change ∀ j c, (Function.update f.loops i l' j).phase = .dropping c → v.rows s'.views = _
    rw [hv]
    exact (Function.forall_update_iff f.loops fun _ l => ∀ c, l.phase = .dropping c → _).2
      ⟨fun c hc => absurd hc (hd c), fun j _ => h.cleared j⟩
  · by_cases hp : v.pending f.shared
    · exact .inl (hpending.2 hp)
    · obtain ⟨hstep, hreached, hsound⟩ := h.inStep.resolve_left hp
      refine .inr ⟨?_, ?_, ?_⟩
      · change v.InStep s'
        unfold ViewKind.InStep ViewKind.UpTo
        rw [hmark, hl, hv]
        exact hstep
      · change v.mark s' ≤ s'.log.events.length
        rw [hmark, hl]
        exact hreached
      · refine (Function.forall_update_iff f.loops fun _ l => v.Sound l s').2 ⟨?_, fun j _ => ?_⟩
        · exact (ViewKind.sound_congr hl hm hv).2 (hs hp (hsound i))
        · exact (ViewKind.sound_congr hl hm hv).2 (hsound j)

/-- A step of the one loop in a cycle. The other loops rely on nothing. -/
theorem Safe.alone (h : f.Safe v) (ha : f.Apart) (hi : (f.loops i).phase.inCycle = true)
    (hl : s'.log = f.shared.log) (hh : l'.handler = (f.loops i).handler)
    (hd : ∀ c, l'.phase = .dropping c → v.rows s'.views = Index.empty)
    (hs : v.pending s' ∨
      v.InStep s' ∧ v.mark s' ≤ f.shared.log.events.length ∧ v.Sound l' s') :
    (f.put i l' s').Safe v := by
  have hout (j : ι) (hj : j ≠ i) := ha.not_inCycle hi hj
  constructor
  · change s'.log.Numbered
    rw [hl]
    exact h.numbered
  · refine (Function.forall_update_iff f.loops
      fun _ l => ∃ cycle delay, l.handler = v.handler cycle delay).2 ⟨?_, fun j _ => h.handler j⟩
    rw [hh]
    exact h.handler i
  · refine (Function.forall_update_iff f.loops fun _ l => ∀ c, l.phase = .dropping c → _).2
      ⟨hd, fun j hj c hc => ?_⟩
    have := hout j hj
    rw [hc] at this
    cases this
  · refine hs.imp_right fun ⟨hstep, hreached, hsound⟩ => ⟨hstep, ?_, ?_⟩
    · change v.mark s' ≤ s'.log.events.length
      rw [hl]
      exact hreached
    · exact (Function.forall_update_iff f.loops fun _ l => v.Sound l s').2
        ⟨hsound, fun j hj => ViewKind.sound_of_not_inCycle (hout j hj)⟩

section turns

variable {cycle delay : Duration} {c c' : Cycle} {e : Event} {p : Page}

/-- Dropping the watermark: the view is empty, so it is up to the start. -/
theorem Safe.drop (h : f.Safe v) (ha : f.Apart) (was : (f.loops i).phase = .dropping c) :
    (f.put i { f.loops i with mark := 0, phase := .locating c }
      { f.shared with marks := f.shared.marks.drop v.view }).Safe v := by
  have hempty := h.cleared i c was
  have hmark : v.mark { f.shared with marks := f.shared.marks.drop v.view } = 0 :=
    WatermarkTable.current_drop f.shared.marks v.view
  refine h.alone ha (by rw [was]; rfl) rfl rfl nofun (.inr ⟨.inl ?_, ?_, trivial⟩)
  · rw [hmark]
    exact ViewKind.upTo_zero h.numbered hempty
  · rw [hmark]
    omega

/-- Writing a fold: the rows are up to its event behind it. -/
theorem Safe.write (h : f.Safe v) (ha : f.Apart) (hh : (f.loops i).handler = v.handler cycle delay)
    {fold : Fold Stores} (was : (f.loops i).phase = .writing c e p fold)
    (ok : fold.error = none) :
    (f.put i { f.loops i with phase := .recording c e p }
      { f.shared with views := fold.write f.shared.views }).Safe v := by
  refine h.alone ha (by rw [was]; rfl) rfl rfl nofun (h.inStep.imp_right ?_)
  rintro ⟨hstep, hreached, hsound⟩
  have hs := hsound i
  rw [ViewKind.Sound, was, hh] at hs
  obtain ⟨hpage, rfl⟩ := hs
  obtain ⟨more, hmore⟩ := hpage
  have hb : f.shared.log.behind v.query (v.mark f.shared) = e :: (p.rest ++ more) := hmore.symm
  rcases ViewKind.handler_fold_cases f.shared.views e with
    ⟨err, herr, -⟩ | ⟨edit, hedit, -, hwrite⟩
  · rw [herr] at ok
    cases ok
  · have hfold : v.projection.fold (v.rows f.shared.views) e
        = .ok (edit.apply (v.rows f.shared.views)) := by
      rw [Projection.fold, hedit]
      rfl
    have hup := hstep.fold_next h.numbered hb hfold
    rw [← hwrite] at hup
    exact ⟨.inr ⟨e, _, hb, hup⟩, hreached, ⟨more, hmore⟩, hup⟩

/-- Ending a fold in an error: nothing is written. -/
theorem Safe.spoil (h : f.Safe v) (ha : f.Apart) (hh : (f.loops i).handler = v.handler cycle delay)
    {fold : Fold Stores} {err : Error} (was : (f.loops i).phase = .writing c e p fold)
    (failed : fold.error = some err) (handler : l'.handler = (f.loops i).handler)
    (out : l'.phase.inCycle = false) :
    (f.put i l' { f.shared with views := fold.write f.shared.views }).Safe v := by
  refine h.alone ha (by rw [was]; rfl) rfl handler (fun c hc => ?_) (h.inStep.imp_right ?_)
  · rw [hc] at out
    cases out
  · rintro ⟨hstep, hreached, hsound⟩
    have hs := hsound i
    rw [ViewKind.Sound, was, hh] at hs
    obtain ⟨-, rfl⟩ := hs
    rcases ViewKind.handler_fold_cases f.shared.views e with
      ⟨err, -, hwrite⟩ | ⟨edit, -, hok, -⟩
    · rw [hwrite]
      exact ⟨hstep, hreached, ViewKind.sound_of_not_inCycle out⟩
    · rw [hok] at failed
      cases failed

/-- Recording a fold: the watermark moves up to the event that the rows are up to. -/
theorem Safe.record (h : f.Safe v) (ha : f.Apart) (was : (f.loops i).phase = .recording c e p) :
    (f.put i { f.loops i with mark := e.position, phase := .between c' p }
      { f.shared with marks := f.shared.marks.advance f.now v.view e.position }).Safe v := by
  have hp : v.pending { f.shared with
      marks := f.shared.marks.advance f.now v.view e.position } ↔ v.pending f.shared := by
    unfold ViewKind.pending
    rw [WatermarkTable.resetRequested_advance]
  refine h.alone ha (by rw [was]; rfl) rfl rfl nofun (h.inStep.imp hp.2 ?_)
  rintro ⟨-, -, hsound⟩
  have hs := hsound i
  rw [ViewKind.Sound, was] at hs
  obtain ⟨⟨more, hpage⟩, hup⟩ := hs
  obtain ⟨hlt, hnext, -⟩ := h.numbered.next hpage.symm
  have hmark : v.mark { f.shared with
      marks := f.shared.marks.advance f.now v.view e.position } = e.position := by
    unfold ViewKind.mark at hlt ⊢
    rw [WatermarkTable.current_advance]
    omega
  have he : e ∈ f.shared.log.behind v.query (v.mark f.shared) := hpage ▸ List.mem_cons_self
  refine ⟨.inl ?_, ?_, hmark.symm, ?_⟩
  · rw [hmark]
    exact hup
  · rw [hmark]
    exact h.numbered.position_le (EventLog.mem_behind_iff.1 he).1
  · rw [hmark, hnext]
    exact ⟨more, rfl⟩

end turns

/-- **Turns.** A step of a loop keeps the invariant, as long as no other loop is in a cycle. -/
theorem Safe.turn (h : f.Safe v) (ha : f.Apart)
    (ht : Turn f.now verdict (f.loops i) f.shared l' s') : (f.put i l' s').Safe v := by
  obtain ⟨cycle, delay, hh⟩ := h.handler i
  have hview : (f.loops i).handler.view = v.view := by rw [hh, ViewKind.handler_view]
  have hquery : (f.loops i).handler.query = v.query := by rw [hh, ViewKind.handler_query]
  cases ht with
  | leave config handler out recorded =>
    refine h.frame rfl rfl rfl handler (fun c hc => ?_)
      fun _ _ => ViewKind.sound_of_not_inCycle out
    rw [hc] at out
    cases out
  | begin was => exact h.frame rfl rfl rfl rfl nofun fun _ _ => trivial
  | rebuild was requested =>
    rw [hview] at requested
    exact h.frame rfl rfl rfl rfl nofun fun hp _ => absurd requested hp
  | resume was requested => exact h.frame rfl rfl rfl rfl nofun fun _ _ => trivial
  | clear was =>
    have hp : v.pending f.shared := by
      by_contra hp
      have hs := (h.inStep.resolve_left hp).2.2 i
      rw [ViewKind.Sound, was] at hs
      exact hs
    refine h.alone ha (by rw [was]; rfl) rfl rfl (fun c _ => ?_) (.inl hp)
    rw [hh]
    exact v.rows_set Index.empty f.shared.views
  | drop was =>
    rw [hview]
    exact h.drop ha was
  | locate was =>
    refine h.frame rfl rfl rfl rfl nofun fun _ _ => ?_
    change f.shared.marks.current (f.loops i).handler.view = _
    rw [hview]
    rfl
  | page was =>
    refine h.frame rfl rfl rfl rfl nofun fun _ hs => ?_
    rw [ViewKind.Sound, was] at hs
    refine ⟨hs, ?_⟩
    change f.shared.log.query (ViewLoop.pageFilter _) <+: _
    rw [ViewLoop.pageFilter, EventLog.query_startingAfter_capped, hquery, hs]
    exact List.take_prefix ..
  | more was done =>
    refine h.frame rfl rfl rfl rfl nofun fun _ hs => ?_
    rw [ViewKind.Sound, was] at hs
    exact hs.1
  | @take c p e rest phase was next faces =>
    refine h.frame rfl rfl rfl rfl (fun c hc => ?_) fun _ hs => ?_
    · change phase = _ at hc
      rw [hc] at faces
      cases faces
    · rw [ViewKind.Sound, was] at hs
      rw [ViewKind.sound_iff_of_facing faces]
      dsimp only
      rw [← next]
      exact hs.2
  | @keep e p phase leases was faces =>
    refine h.frame rfl rfl rfl rfl (fun c hc => ?_) fun _ hs => ?_
    · change phase = _ at hc
      rw [hc] at faces
      cases faces
    · rw [ViewKind.sound_iff_of_facing was] at hs
      rwa [ViewKind.sound_iff_of_facing faces]
  | read was =>
    refine h.frame rfl rfl rfl rfl nofun fun _ hs => ?_
    rw [ViewKind.Sound, was] at hs
    exact ⟨hs, rfl⟩
  | write was ok => exact h.write ha hh was ok
  | spoil was failed config handler out => exact h.spoil ha hh was failed handler out
  | record was =>
    rw [hview]
    exact h.record ha was

omit [DecidableEq ι] in
/-- The log grows. -/
theorem Safe.grow (h : f.Safe v) {log : EventLog} (n : log.Numbered)
    (hlog : f.shared.log.events <+: log.events) : (f.withLog log).Safe v := by
  refine ⟨n, h.handler, h.cleared, h.inStep.imp_right ?_⟩
  rintro ⟨hstep, hreached, hsound⟩
  refine ⟨hstep.grow h.numbered n hlog hreached rfl rfl, ?_, fun i => ?_⟩
  · have hlen : f.shared.log.events.length ≤ log.events.length := hlog.length_le
    change v.mark f.shared ≤ log.events.length
    omega
  · exact (hsound i).grow h.numbered n hlog rfl rfl

/-- Somebody asks for a view to be built again. -/
theorem Safe.requestReset (h : f.Safe v) (view : String) : (f.act (.requestReset view)).Safe v := by
  refine ⟨h.numbered, h.handler, h.cleared, ?_⟩
  by_cases hview : v.view = view
  · refine .inl ?_
    change (WatermarkTable.requestReset _ _ view).resetRequested v.view = true
    simp [hview]
  · refine h.inStep.imp (fun hp => ?_) ?_
    · change (WatermarkTable.requestReset _ _ view).resetRequested v.view = true
      rw [WatermarkTable.resetRequested_requestReset, hp, Bool.or_true]
    · have hmark : v.mark (f.act (.requestReset view)).shared = v.mark f.shared :=
        WatermarkTable.current_requestReset ..
      rintro ⟨hstep, hreached, hsound⟩
      refine ⟨?_, by rw [hmark]; exact hreached, fun i => ?_⟩
      · unfold ViewKind.InStep at hstep ⊢
        rw [hmark]
        exact hstep
      · have hs := hsound i
        unfold ViewKind.Sound at hs ⊢
        rw [hmark]
        exact hs

/-- **Happenings.** Whatever happens keeps the invariant, as long as no two loops are in a cycle. -/
theorem Safe.act (h : f.Safe v) (ha : f.Apart) (a : Act ι) : (f.act a).Safe v := by
  cases a with
  | step i stop verdict => exact h.turn ha (ViewLoop.step_turn ..)
  | cut i =>
    exact h.frame rfl rfl rfl rfl nofun fun _ _ => ViewKind.sound_of_not_inCycle rfl
  | restart i =>
    change Safe v (if (f.loops i).phase.isOver then _ else f)
    split
    · exact h.frame rfl rfl rfl rfl nofun fun _ _ => ViewKind.sound_of_not_inCycle rfl
    · exact h
  | append a => exact h.grow (h.numbered.land a) Attempt.prefix_land
  | command c editor at_ => exact h.grow (h.numbered.command c editor at_) Command.prefix_land
  | requestReset view => exact h.requestReset view
  | pass d => exact ⟨h.numbered, h.handler, h.cleared, h.inStep⟩

omit [DecidableEq ι] in
/-- A fleet at its start is safe. -/
theorem safe_fleet (v : ViewKind) (setup : ι → LoopSetup) (now : Instant)
    (schemas : Option SchemaSet) (leases : LeaseTable) :
    (v.fleet setup now schemas leases).Safe v := by
  have n : (v.fleet setup now schemas leases).shared.log.Numbered :=
    EventLog.numbered_of_events_eq_nil rfl
  refine ⟨n, fun i => ⟨_, _, rfl⟩, nofun, .inr ⟨.inl ?_, ?_, fun i => trivial⟩⟩
  · exact ViewKind.upTo_zero n v.rows_empty
  · exact Int.le_refl 0

/-- The invariant behind a run in which no two loops are in a cycle. -/
theorem Safe.run (h : f.Safe v) {acts : List (Act ι)}
    (apart : ∀ pre, pre <+: acts → (f.run pre).Apart) : (f.run acts).Safe v := by
  induction acts generalizing f with
  | nil => exact h
  | cons a acts ih =>
    refine ih (h.act (apart [] List.nil_prefix) a) fun pre hpre => ?_
    exact apart (a :: pre) (List.cons_prefix_cons.2 ⟨rfl, hpre⟩)

/-! ## The end of a request -/

/-- A request to build the view again is kept, until a loop drops the watermark. -/
theorem pending_turn {l : ViewLoop Stores} {s : Shared Stores} {now : Instant}
    (hh : l.handler.view = v.view) (ht : Turn now verdict l s l' s') (hp : v.pending s) :
    v.pending s' ∨
      (∃ c, l.phase = .dropping c) ∧ s' = { s with marks := s.marks.drop v.view } := by
  cases ht with
  | drop was =>
    rw [hh]
    exact .inr ⟨⟨_, was⟩, rfl⟩
  | record was =>
    refine .inl ?_
    rw [hh]
    unfold ViewKind.pending
    rw [WatermarkTable.resetRequested_advance]
    exact hp
  | _ => exact .inl hp

/-- A request that is no longer there has left an empty view without a watermark. -/
theorem Safe.cleared_of_pending (h : f.Safe v) (a : Act ι) (hp : v.pending f.shared)
    (hp' : ¬v.pending (f.act a).shared) :
    v.rows (f.act a).shared.views = Index.empty ∧
      (f.act a).shared.marks.get? v.view = none := by
  cases a with
  | step i stop verdict =>
    obtain ⟨cycle, delay, hh⟩ := h.handler i
    have hview : (f.loops i).handler.view = v.view := by rw [hh, ViewKind.handler_view]
    rcases pending_turn hview ((f.loops i).step_turn f.shared) hp with hp' | ⟨⟨c, was⟩, hs⟩
    · contradiction
    · unfold Fleet.act Fleet.put
      dsimp only
      rw [hs]
      exact ⟨h.cleared i c was, Index.get?_erase_self _ _⟩
  | cut i => contradiction
  | restart i =>
    have hs : (f.act (.restart i)).shared = f.shared := by
      change (if (f.loops i).phase.isOver then _ else f).shared = f.shared
      split <;> rfl
    rw [hs] at hp'
    contradiction
  | append a => contradiction
  | command c editor at_ => contradiction
  | requestReset view =>
    refine absurd ?_ hp'
    change (WatermarkTable.requestReset _ _ view).resetRequested v.view = true
    rw [WatermarkTable.resetRequested_requestReset, hp, Bool.or_true]
  | pass d => contradiction

end Fleet

/-- **Fault safety.** In a run of loops on one view whose cycles do not overlap, with any calls
failing, any loops cut off, and any appends and requests in between, the view is to be built again,
or its rows are the fold of the events up to its watermark or up to the next event behind it. And
when a request to build it again is no longer there, the view is empty and has no watermark. -/
theorem ViewKind.inStep_of_run {ι : Type} [DecidableEq ι] (v : ViewKind) (setup : ι → LoopSetup)
    (now : Instant) (schemas : Option SchemaSet) (leases : LeaseTable) (acts : List (Fleet.Act ι))
    (apart : ∀ pre, pre <+: acts → ((v.fleet setup now schemas leases).run pre).Apart) :
    let s := ((v.fleet setup now schemas leases).run acts).shared
    (v.pending s ∨ v.UpTo s (v.mark s) ∨
        ∃ e rest, s.log.behind v.query (v.mark s) = e :: rest ∧ v.UpTo s e.position) ∧
      ∀ a, let s' := ((v.fleet setup now schemas leases).run (acts ++ [a])).shared
        v.pending s → ¬v.pending s' →
          v.rows s'.views = Index.empty ∧ s'.marks.get? v.view = none := by
  intro s
  have h : ((v.fleet setup now schemas leases).run acts).Safe v :=
    (Fleet.safe_fleet v setup now schemas leases).run apart
  constructor
  · exact h.inStep.imp_right fun hs => hs.1
  · intro a s' hp hp'
    unfold s' at hp' ⊢
    rw [Fleet.run_concat] at hp' ⊢
    exact h.cleared_of_pending a hp hp'

/-- Cycles that do not overlap: one loop is cut off between a fold and its recording, the view is
asked to be built again, and once the lease has expired another loop takes over. -/
theorem ViewKind.inStep_of_run_handover :
    let f : Fleet Bool Stores := ViewKind.lockout.fleet
      (fun i => ⟨{ holder := if i then "a" else "b" }, Duration.ofSecs 1, Duration.zero⟩) ⟨0⟩ none
    let acts : List (Fleet.Act Bool) :=
      [.command ⟨.lockout (.org "acme"), .add ⟨5, true⟩⟩ "root" ⟨0⟩]
        ++ List.replicate 8 (.step true false .pass)
        ++ [.cut true, .requestReset "projections.lockout_policies", .pass (Duration.ofSecs 60)]
        ++ List.replicate 8 (.step false false .pass)
    let s := (f.run acts).shared
    (∀ pre, pre <+: acts → (f.run pre).Apart) ∧
      (lockout.pending s ∨ lockout.UpTo s (lockout.mark s) ∨
        ∃ e rest, s.log.behind lockout.query (lockout.mark s) = e :: rest ∧
          lockout.UpTo s e.position) := by
  intro f acts s
  have apart : ∀ pre, pre <+: acts → (f.run pre).Apart := by
    intro pre hpre
    have htake : ∀ k < acts.length + 1, ∀ i j,
        ((f.run (acts.take k)).loops i).phase.inCycle = true →
          ((f.run (acts.take k)).loops j).phase.inCycle = true → i = j := by
      decide +kernel
    rw [List.prefix_iff_eq_take.1 hpre]
    exact htake _ (Nat.lt_succ_of_le hpre.length_le)
  exact ⟨apart, (inStep_of_run lockout _ _ _ _ acts apart).1⟩

end Chronicle
