import Chronicle.Proofs.Log.Behind
import Chronicle.Proofs.Loop.Watch
import Chronicle.Proofs.Watermarks
/-!
# Views that are built again

A view is built again in two calls: a loop clears it, then it drops the watermark, and the events are
folded once more from the start. Between two of its calls a loop may lose its lease, so that another
one builds the view again under its feet. What the first one has read by then is out of date, and
nothing is skipped as long as it does not move the watermark up.

* `Watched.Fenced`: only a loop that has read the watermark since it was last dropped moves it up;
* `Watched.Rebuilt`: what the watermark says is folded;
* `ViewLoop.OnTrack`: what a loop relies on that has read the watermark in time;
* `Watched.Intact`: the invariant, **`Watched.Intact.turn`**: a fenced step keeps it, and
  **`Watched.Intact.run`**;
* **`Watched.Unasked.fencedRun`**: what happens is fenced while nobody asks for the view to be built
  again.
-/

namespace Chronicle

/-! ## Fences -/

namespace Watched

variable {ι σ : Type} [DecidableEq ι]

/-- What happens next is fenced. A loop moves the watermark of `view` up only if it has read it since
it was last dropped, and a loop that ends before it drops the watermark of a view that it has cleared
leaves a request to build the view again. -/
def Fenced (view : String) (w : Watched ι σ) : Fleet.Act ι → Prop
  | .step i stop v =>
    let r := (w.fleet.loops i).step w.fleet.now stop v w.fleet.shared
    (w.fleet.shared.marks.current view < r.shared.marks.current view → w.read i = w.drops) ∧
      ((w.fleet.loops i).phase.isDropping = true →
        r.loop.phase.inCycle = true ∨ w.fleet.shared.marks.resetRequested view = true)
  | .cut i =>
    (w.fleet.loops i).phase.isDropping = true →
      w.fleet.shared.marks.resetRequested view = true
  | _ => True

instance (view : String) (w : Watched ι σ) (a : Fleet.Act ι) : Decidable (w.Fenced view a) :=
  match a with
  | .step _ _ _ => inferInstanceAs (Decidable (_ ∧ _))
  | .cut _ => inferInstanceAs (Decidable (_ → _))
  | .restart _ => .isTrue trivial
  | .append _ => .isTrue trivial
  | .command _ _ _ => .isTrue trivial
  | .requestReset _ => .isTrue trivial
  | .pass _ => .isTrue trivial

/-- All that happens is fenced. -/
def FencedRun (view : String) : Watched ι σ → List (Fleet.Act ι) → Prop
  | _, [] => True
  | w, a :: acts => w.Fenced view a ∧ FencedRun view (w.act a) acts

instance decidableFencedRun (view : String) :
    ∀ (w : Watched ι σ) (acts : List (Fleet.Act ι)), Decidable (w.FencedRun view acts)
  | _, [] => .isTrue trivial
  | w, a :: acts =>
    have := decidableFencedRun view (w.act a) acts
    inferInstanceAs (Decidable (_ ∧ _))

/-- While the view need not be built again and no loop is about to, every event up to the watermark
has been folded since the view was last cleared. -/
def Rebuilt (h : Handler σ) (w : Watched ι σ) : Prop :=
  w.fleet.shared.marks.resetRequested h.view = false →
    (∀ i, (w.fleet.loops i).phase.isDropping = false) →
      ∀ e ∈ w.fleet.shared.log.events, h.query.admits e = true →
        e.position ≤ w.fleet.shared.marks.current h.view → e ∈ w.folded

end Watched

/-! ## What a loop relies on -/

/-- The log has reached `x`, and what `q` admits up to `x` is among the events. -/
def EventLog.Within (log : EventLog) (q : Filter) (x : Int) (es : List Event) : Prop :=
  x ≤ log.events.length ∧ ∀ e ∈ log.covered q x, e ∈ es

/-- What a loop relies on that has read the watermark since it was last dropped: everything up to its
mark is folded, its page is what comes behind, and so is what it is about to record. -/
structure ViewLoop.OnTrack {σ : Type} (q : Filter) (log : EventLog) (folded : List Event)
    (l : ViewLoop σ) : Prop where
  page : ∀ es, l.phase.ahead? = some es →
    log.Within q l.mark folded ∧ es <+: log.behind q l.mark
  done : ∀ c e p, l.phase = .recording c e p → e ∈ folded

section track

variable {σ : Type} {q : Filter} {log log' : EventLog} {es es' rest : List Event} {e : Event} {x : Int}
  {l : ViewLoop σ}

namespace EventLog.Within

theorem zero (n : log.Numbered) : log.Within q 0 es := by
  refine ⟨Int.natCast_nonneg _, ?_⟩
  rw [n.covered_zero (Int.le_refl 0)]
  nofun

theorem mono (h : log.Within q x es) (n : log'.Numbered) (hlog : log.events <+: log'.events)
    (hes : es ⊆ es') : log'.Within q x es' := by
  have hlen := hlog.length_le
  obtain ⟨hx, h⟩ := h
  refine ⟨by omega, ?_⟩
  rw [n.covered_eq hlog hx]
  exact fun e he => hes (h e he)

/-- Folding the next event behind a position leads up to it. -/
theorem next (h : log.Within q x es) (n : log.Numbered) (hb : log.behind q x = e :: rest)
    (he : e ∈ es) : log.Within q e.position es := by
  have hmem : e ∈ log.behind q x := hb ▸ List.mem_cons_self
  refine ⟨n.position_le (mem_behind_iff.1 hmem).1, ?_⟩
  rw [(n.next hb).2.2]
  intro e' he'
  rcases List.mem_append.1 he' with hold | hnew
  · exact h.2 e' hold
  · exact List.eq_of_mem_singleton hnew ▸ he

end EventLog.Within

namespace ViewLoop.OnTrack

theorem of_not_inCycle (h : l.phase.inCycle = false) : l.OnTrack q log es := by
  refine ⟨fun es hes => ?_, fun c e p hp => ?_⟩
  · rw [Phase.ahead?_of_not_inCycle h] at hes
    cases hes
  · rw [hp] at h
    cases h

/-- A loop that has nothing to record is on track if its page is. -/
theorem of_page {page : List Event} (ahead : l.phase.ahead? = some page)
    (hpage : log.Within q l.mark es ∧ page <+: log.behind q l.mark)
    (hr : ∀ c e p, l.phase ≠ .recording c e p) : l.OnTrack q log es := by
  refine ⟨fun page' hp => ?_, fun c e p hp => absurd hp (hr c e p)⟩
  cases ahead.symm.trans hp
  exact hpage

/-- A loop stays on track while the log grows and more is folded. -/
theorem mono (h : l.OnTrack q log es) (n : log'.Numbered) (hlog : log.events <+: log'.events)
    (hes : es ⊆ es') : l.OnTrack q log' es' := by
  refine ⟨fun page hp => ?_, fun c e p hp => hes (h.done c e p hp)⟩
  obtain ⟨hin, hpage⟩ := h.page page hp
  exact ⟨hin.mono n hlog hes, hpage.trans (EventLog.behind_prefix hlog)⟩

end ViewLoop.OnTrack

end track

/-! ## The invariant -/

/-- All loops follow the view of `h`. -/
def Fleet.Follows {ι σ : Type} (h : Handler σ) (f : Fleet ι σ) : Prop :=
  ∀ i, (f.loops i).handler.view = h.view ∧ (f.loops i).handler.query = h.query

theorem Fleet.Follows.put {ι σ : Type} [DecidableEq ι] {h : Handler σ} {f : Fleet ι σ}
    (hf : f.Follows h) {i : ι} {l : ViewLoop σ} (handler : l.handler = (f.loops i).handler)
    (s : Shared σ) : (f.put i l s).Follows h := by
  intro j
  by_cases hj : j = i
  · subst hj
    rw [loops_put_self, handler]
    exact hf j
  · rw [loops_put_of_ne f hj]
    exact hf j

namespace Watched

variable {ι σ : Type} [DecidableEq ι] {h : Handler σ} {w : Watched ι σ} {i : ι} {verdict : Verdict}
  {l' : ViewLoop σ} {s' : Shared σ}

/-- What holds of loops that follow the view of `h`, as long as all is fenced. The view is to be built
again, or a loop is about to, or everything up to the watermark is folded and every loop is on track
that has read it since it was last dropped. -/
structure Intact (h : Handler σ) (w : Watched ι σ) : Prop where
  numbered : w.fleet.shared.log.Numbered
  follows : w.fleet.Follows h
  read_le : ∀ i, w.read i ≤ w.drops
  whole : w.fleet.shared.marks.resetRequested h.view = true ∨
    (∃ i, (w.fleet.loops i).phase.isDropping = true) ∨
    w.fleet.shared.log.Within h.query (w.fleet.shared.marks.current h.view) w.folded ∧
      ∀ i, w.read i = w.drops → (w.fleet.loops i).OnTrack h.query w.fleet.shared.log w.folded

/-- A step of the loop `i` that neither clears the view nor drops the watermark. The other loops stay
on track. -/
theorem Intact.move {w' : Watched ι σ} (hw : w.Intact h) (fleet : w'.fleet = w.fleet.put i l' s')
    (log : s'.log = w.fleet.shared.log) (handler : l'.handler = (w.fleet.loops i).handler)
    (drops : w'.drops = w.drops) (reads : ∀ j, j ≠ i → w'.read j = w.read j)
    (read_le : w'.read i ≤ w.drops) (more : w.folded ⊆ w'.folded)
    (asked : s'.marks.resetRequested h.view = w.fleet.shared.marks.resetRequested h.view)
    (left : (w.fleet.loops i).phase.isDropping = true →
      w.fleet.shared.marks.resetRequested h.view = true)
    (own : w.fleet.shared.log.Within h.query (w.fleet.shared.marks.current h.view) w.folded →
      (w.read i = w.drops → (w.fleet.loops i).OnTrack h.query w.fleet.shared.log w.folded) →
        w.fleet.shared.log.Within h.query (s'.marks.current h.view) w'.folded ∧
          (w'.read i = w.drops → l'.OnTrack h.query w.fleet.shared.log w'.folded)) :
    w'.Intact h := by
  obtain ⟨fleet', folded', drops', read'⟩ := w'
  subst fleet drops
  constructor
  case numbered =>
    change s'.log.Numbered
    rw [log]
    exact hw.numbered
  case follows => exact hw.follows.put handler s'
  case read_le =>
    intro j
    by_cases hj : j = i
    · subst hj
      exact read_le
    · exact Nat.le_trans (Nat.le_of_eq (reads j hj)) (hw.read_le j)
  case whole =>
    change s'.marks.resetRequested h.view = true ∨ _
    rw [asked]
    rcases hw.whole with hasked | ⟨k, hk⟩ | ⟨hin, htrack⟩
    · exact .inl hasked
    · by_cases hki : k = i
      · exact .inl (left (hki ▸ hk))
      · refine .inr (.inl ⟨k, ?_⟩)
        change ((w.fleet.put i l' s').loops k).phase.isDropping = true
        rw [Fleet.loops_put_of_ne _ hki]
        exact hk
    · obtain ⟨hin', hown⟩ := own hin (htrack i)
      have hlog : w.fleet.shared.log.events <+: s'.log.events := log.symm ▸ List.prefix_rfl
      have n : s'.log.Numbered := log.symm ▸ hw.numbered
      refine .inr (.inr ⟨hin'.mono n hlog (List.Subset.refl _), ?_⟩)
      refine (Function.forall_update_iff w.fleet.loops
        fun j l => read' j = w.drops → l.OnTrack h.query s'.log folded').2 ⟨fun hr => ?_, ?_⟩
      · exact (hown hr).mono n hlog (List.Subset.refl _)
      · intro j hj hr
        exact (htrack j ((reads j hj).symm.trans hr)).mono n hlog more

/-- A step that leaves log, watermarks and history as they are. -/
theorem Intact.frame (hw : w.Intact h) (log : s'.log = w.fleet.shared.log)
    (marks : s'.marks = w.fleet.shared.marks)
    (handler : l'.handler = (w.fleet.loops i).handler)
    (stride : (w.fleet.loops i).phase.stride? l'.phase = none)
    (left : (w.fleet.loops i).phase.isDropping = true →
      w.fleet.shared.marks.resetRequested h.view = true)
    (track : (w.fleet.loops i).OnTrack h.query w.fleet.shared.log w.folded →
      l'.OnTrack h.query w.fleet.shared.log w.folded) : (w.move i l' s').Intact h := by
  rw [move_of_stride none stride]
  refine hw.move rfl log handler rfl (fun _ _ => rfl) (hw.read_le i) (List.Subset.refl _)
    (by rw [marks]) left fun hin htrack => ⟨?_, fun hr => track (htrack hr)⟩
  rw [marks]
  exact hin

/-- A loop gets out of its cycle and leaves everything as it is. -/
theorem Intact.settle (hw : w.Intact h) {phase : Phase σ} (out : phase.inCycle = false)
    (left : (w.fleet.loops i).phase.isDropping = true →
      w.fleet.shared.marks.resetRequested h.view = true) :
    Intact h { w with
      fleet := w.fleet.put i { w.fleet.loops i with phase := phase } w.fleet.shared } := by
  have hstride : (w.fleet.loops i).phase.stride? phase = none := Phase.stride?_of_not_inCycle out
  have hmove : (w.move i { w.fleet.loops i with phase := phase } w.fleet.shared).Intact h :=
    hw.frame rfl rfl rfl hstride left fun _ => .of_not_inCycle out
  rw [move_of_stride none hstride] at hmove
  exact hmove

section turns

variable {c c' : Cycle} {e : Event} {p : Page}

/-- Clearing the view: the watermark is to be dropped next. -/
theorem Intact.clear (hw : w.Intact h) (was : (w.fleet.loops i).phase = .clearing c)
    (views : σ) :
    (w.move i { w.fleet.loops i with phase := .dropping c }
      { w.fleet.shared with views := views }).Intact h := by
  rw [move_of_stride (some .cleared) (by rw [was]; rfl)]
  refine ⟨hw.numbered, hw.follows.put (by rfl) _, hw.read_le, .inr (.inl ⟨i, ?_⟩)⟩
  change ((w.fleet.put i _ _).loops i).phase.isDropping = true
  rw [Fleet.loops_put_self]
  rfl

/-- Dropping the watermark: nothing is up to it, and what loops have read is out of date. -/
theorem Intact.drop (hw : w.Intact h) (was : (w.fleet.loops i).phase = .dropping c) :
    (w.move i { w.fleet.loops i with mark := 0, phase := .locating c }
      { w.fleet.shared with marks := w.fleet.shared.marks.drop h.view }).Intact h := by
  rw [move_of_stride (some .dropped) (by rw [was]; rfl)]
  refine ⟨hw.numbered, hw.follows.put (by rfl) _, fun j => Nat.le_succ_of_le (hw.read_le j),
    .inr (.inr ⟨?_, ?_⟩)⟩
  · change EventLog.Within _ _ ((w.fleet.shared.marks.drop h.view).current h.view) _
    rw [WatermarkTable.current_drop]
    exact .zero hw.numbered
  · intro j hj
    have hle : w.read j ≤ w.drops := hw.read_le j
    change w.read j = w.drops + 1 at hj
    omega

/-- Reading the watermark: everything up to it is folded. -/
theorem Intact.locate (hw : w.Intact h) (was : (w.fleet.loops i).phase = .locating c) :
    (w.move i
      { w.fleet.loops i with mark := w.fleet.shared.marks.current h.view, phase := .paging c }
      w.fleet.shared).Intact h := by
  rw [move_of_stride (some .located) (by rw [was]; rfl)]
  refine hw.move rfl rfl rfl rfl (fun j hj => Function.update_of_ne hj ..) ?_
    (List.Subset.refl _) rfl (by rw [was]; nofun)
    fun hin _ => ⟨hin, fun _ => .of_page rfl ⟨hin, List.nil_prefix⟩ nofun⟩
  have hread : Function.update w.read i w.drops i = w.drops := Function.update_self ..
  exact Nat.le_of_eq hread

/-- Writing a fold: its event is folded. -/
theorem Intact.write (hw : w.Intact h) {fold : Fold σ}
    (was : (w.fleet.loops i).phase = .writing c e p fold) (views : σ) :
    (w.move i { w.fleet.loops i with phase := .recording c e p }
      { w.fleet.shared with views := views }).Intact h := by
  have hmore : w.folded ⊆ w.folded ++ [e] := List.subset_append_left ..
  rw [move_of_stride (some (.folded e)) (by rw [was]; rfl)]
  refine hw.move rfl rfl rfl rfl (fun _ _ => rfl) (hw.read_le i) hmore rfl (by rw [was]; nofun)
    fun hin htrack => ⟨?_, fun hr => ⟨?_, ?_⟩⟩
  · exact hin.mono hw.numbered List.prefix_rfl hmore
  · intro es hes
    obtain ⟨hin', hpage⟩ := (htrack hr).page es (by rw [was]; exact hes)
    exact ⟨hin'.mono hw.numbered List.prefix_rfl hmore, hpage⟩
  · intro c₂ e₂ p₂ hp
    cases hp
    exact List.mem_append_right _ List.mem_cons_self

/-- Recording a fold. If this moves the watermark up, the loop is on track, so everything up to its
event is folded. -/
theorem Intact.record (hw : w.Intact h) (was : (w.fleet.loops i).phase = .recording c e p)
    (fresh : w.fleet.shared.marks.current h.view < e.position → w.read i = w.drops) :
    (w.move i { w.fleet.loops i with mark := e.position, phase := .between c' p }
      { w.fleet.shared with
        marks := w.fleet.shared.marks.advance w.fleet.now h.view e.position }).Intact h := by
  have hstride : (w.fleet.loops i).phase.stride? (.between c' p) = none := by
    rw [was]
    rfl
  -- a loop on track has everything up to its event folded, and its page comes behind
  have hnext : (w.fleet.loops i).OnTrack h.query w.fleet.shared.log w.folded →
      w.fleet.shared.log.Within h.query e.position w.folded ∧
        p.rest <+: w.fleet.shared.log.behind h.query e.position := by
    intro htrack
    obtain ⟨hin, more, hmore⟩ := htrack.page (e :: p.rest) (by rw [was]; rfl)
    refine ⟨hin.next hw.numbered hmore.symm (htrack.done c e p was), ?_⟩
    rw [(hw.numbered.next hmore.symm).2.1]
    exact List.prefix_append ..
  rw [move_of_stride none hstride]
  refine hw.move rfl rfl rfl rfl (fun _ _ => rfl) (hw.read_le i) (List.Subset.refl _)
    (WatermarkTable.resetRequested_advance ..) (by rw [was]; nofun)
    fun hin htrack => ⟨?_, fun hr => .of_page rfl (hnext (htrack hr)) nofun⟩
  rw [WatermarkTable.current_advance]
  by_cases hlt : w.fleet.shared.marks.current h.view < e.position
  · rw [Int.max_eq_right (Int.le_of_lt hlt)]
    exact (hnext (htrack (fresh hlt))).1
  · rw [Int.max_eq_left (Int.not_lt.1 hlt)]
    exact hin

end turns

/-- **Turns.** A fenced step of a loop keeps the invariant. -/
theorem Intact.turn (hw : w.Intact h)
    (ht : Turn w.fleet.now verdict (w.fleet.loops i) w.fleet.shared l' s')
    (fresh : w.fleet.shared.marks.current h.view < s'.marks.current h.view → w.read i = w.drops)
    (left : (w.fleet.loops i).phase.isDropping = true →
      l'.phase.inCycle = true ∨ w.fleet.shared.marks.resetRequested h.view = true) :
    (w.move i l' s').Intact h := by
  obtain ⟨hview, hquery⟩ := hw.follows i
  cases ht with
  | leave config handler out recorded =>
    refine hw.frame rfl rfl handler (Phase.stride?_of_not_inCycle out) (fun hd => ?_)
      fun _ => .of_not_inCycle out
    exact (left hd).resolve_left (by rw [out]; nofun)
  | begin was =>
    exact hw.frame rfl rfl rfl (by rw [was]; rfl) (by rw [was]; nofun) fun _ => ⟨nofun, nofun⟩
  | rebuild was requested =>
    exact hw.frame rfl rfl rfl (by rw [was]; rfl) (by rw [was]; nofun) fun _ => ⟨nofun, nofun⟩
  | resume was requested =>
    exact hw.frame rfl rfl rfl (by rw [was]; rfl) (by rw [was]; nofun) fun _ => ⟨nofun, nofun⟩
  | clear was => exact hw.clear was _
  | drop was =>
    rw [hview]
    exact hw.drop was
  | locate was =>
    rw [hview]
    exact hw.locate was
  | page was =>
    refine hw.frame rfl rfl rfl (by rw [was]; rfl) (by rw [was]; nofun)
      fun htrack => .of_page rfl ⟨(htrack.page [] (by rw [was]; rfl)).1, ?_⟩ nofun
    change w.fleet.shared.log.query (ViewLoop.pageFilter _) <+: _
    rw [ViewLoop.pageFilter, EventLog.query_startingAfter_capped, hquery]
    exact List.take_prefix ..
  | @more c p was done =>
    refine hw.frame rfl rfl rfl (by rw [was]; rfl) (by rw [was]; nofun) fun htrack => ?_
    have hin := (htrack.page p.rest (by rw [was]; rfl)).1
    exact .of_page rfl ⟨hin, List.nil_prefix⟩ nofun
  | @take c p e rest phase was next faces =>
    refine hw.frame rfl rfl rfl (Phase.stride?_of_facing faces) (by rw [was]; nofun) fun htrack => ?_
    have hpage := htrack.page (e :: rest) (by rw [was, ← next]; rfl)
    exact .of_page (Phase.ahead?_of_facing faces) hpage (Phase.ne_recording_of_facing faces)
  | @keep e p phase leases was faces =>
    have hd := Phase.isDropping_of_not_isRebuilding (Phase.isRebuilding_of_facing was)
    refine hw.frame rfl rfl rfl (Phase.stride?_of_facing faces) (by rw [hd]; nofun) fun htrack => ?_
    have hpage := htrack.page (e :: p.rest) (Phase.ahead?_of_facing was)
    exact .of_page (Phase.ahead?_of_facing faces) hpage (Phase.ne_recording_of_facing faces)
  | @read c e p was =>
    refine hw.frame rfl rfl rfl (by rw [was]; rfl) (by rw [was]; nofun) fun htrack => ?_
    exact .of_page rfl (htrack.page (e :: p.rest) (by rw [was]; rfl)) nofun
  | write was ok => exact hw.write was _
  | spoil was failed config handler out =>
    exact hw.frame rfl rfl handler (Phase.stride?_of_not_inCycle out) (by rw [was]; nofun)
      fun _ => .of_not_inCycle out
  | record was =>
    rw [hview] at fresh ⊢
    refine hw.record was fun hlt => fresh ?_
    change _ < WatermarkTable.current (WatermarkTable.advance ..) _
    rw [WatermarkTable.current_advance]
    omega

omit [DecidableEq ι] in
/-- The log grows. -/
theorem Intact.grow (hw : w.Intact h) {log : EventLog} (n : log.Numbered)
    (hlog : w.fleet.shared.log.events <+: log.events) :
    Intact h { w with fleet := w.fleet.withLog log } := by
  refine ⟨n, hw.follows, hw.read_le, hw.whole.imp_right (Or.imp_right ?_)⟩
  rintro ⟨hin, htrack⟩
  exact ⟨hin.mono n hlog (List.Subset.refl _),
    fun i hi => (htrack i hi).mono n hlog (List.Subset.refl _)⟩

omit [DecidableEq ι] in
/-- Somebody asks for a view to be built again. -/
theorem Intact.requestReset (hw : w.Intact h) (view : String) :
    Intact h { w with
      fleet.shared.marks := w.fleet.shared.marks.requestReset w.fleet.now view } := by
  refine ⟨hw.numbered, hw.follows, hw.read_le, ?_⟩
  dsimp only
  rw [WatermarkTable.resetRequested_requestReset, WatermarkTable.current_requestReset]
  exact hw.whole.imp_left fun hasked => by rw [hasked, Bool.or_true]

/-- **Happenings.** Whatever happens keeps the invariant, as long as it is fenced. -/
theorem Intact.act (hw : w.Intact h) (a : Fleet.Act ι) (fenced : w.Fenced h.view a) :
    (w.act a).Intact h := by
  cases a with
  | step i stop v => exact hw.turn (ViewLoop.step_turn ..) fenced.1 fenced.2
  | cut i => exact hw.settle rfl fenced
  | restart i =>
    change Intact h { w with fleet := if (w.fleet.loops i).phase.isOver then _ else w.fleet }
    split
    · rename_i hover
      refine hw.settle rfl fun hd => ?_
      rw [Phase.isDropping_of_isOver hover] at hd
      cases hd
    · exact hw
  | append a => exact hw.grow (hw.numbered.land a) Attempt.prefix_land
  | command c editor at_ => exact hw.grow (hw.numbered.command c editor at_) Command.prefix_land
  | requestReset view => exact hw.requestReset view
  | pass d => exact ⟨hw.numbered, hw.follows, hw.read_le, hw.whole⟩

/-- The invariant behind a run that is fenced. -/
theorem Intact.run (hw : w.Intact h) {acts : List (Fleet.Act ι)}
    (fenced : w.FencedRun h.view acts) : (w.run acts).Intact h := by
  induction acts generalizing w with
  | nil => exact hw
  | cons a acts ih => exact ih (hw.act a fenced.1) fenced.2

omit [DecidableEq ι] in
/-- The invariant leaves nothing skipped. -/
theorem Intact.rebuilt (hw : w.Intact h) : w.Rebuilt h := by
  intro hasked hidle e he hadmits hle
  rcases hw.whole with hasked' | ⟨i, hi⟩ | ⟨hin, -⟩
  · rw [hasked] at hasked'
    cases hasked'
  · rw [hidle i] at hi
    cases hi
  · exact hin.2 e (EventLog.mem_covered_iff.2 ⟨he, hadmits, hle⟩)

/-! ## Views that nobody asks to be built again -/

/-- Nobody has asked for the view of `h` to be built again. -/
structure Unasked (h : Handler σ) (w : Watched ι σ) : Prop where
  idle : w.fleet.shared.marks.resetRequested h.view = false
  calm : ∀ i, (w.fleet.loops i).phase.isRebuilding = false
  drops : w.drops = 0

/-- A step of a loop, while nobody asks for the view to be built again. -/
theorem Unasked.turn (hu : w.Unasked h) (hview : (w.fleet.loops i).handler.view = h.view)
    (ht : Turn w.fleet.now verdict (w.fleet.loops i) w.fleet.shared l' s') :
    (w.move i l' s').Unasked h := by
  have hcalm := hu.calm i
  have hdrops : (w.move i l' s').drops = 0 := by
    rw [drops_move (Phase.isDropping_of_not_isRebuilding hcalm), hu.drops]
  -- no loop gets to where it clears the view
  have hturn : s'.marks.resetRequested h.view = false ∧ l'.phase.isRebuilding = false := by
    cases ht with
    | leave config handler out recorded => exact ⟨hu.idle, Phase.isRebuilding_of_not_inCycle out⟩
    | rebuild was requested =>
      rw [hview, hu.idle] at requested
      cases requested
    | clear was =>
      rw [was] at hcalm
      cases hcalm
    | drop was =>
      rw [was] at hcalm
      cases hcalm
    | take was next faces => exact ⟨hu.idle, Phase.isRebuilding_of_facing faces⟩
    | keep was faces => exact ⟨hu.idle, Phase.isRebuilding_of_facing faces⟩
    | spoil was failed config handler out =>
      exact ⟨hu.idle, Phase.isRebuilding_of_not_inCycle out⟩
    | record was =>
      rw [hview]
      exact ⟨(WatermarkTable.resetRequested_advance ..).trans hu.idle, rfl⟩
    | _ => exact ⟨hu.idle, rfl⟩
  refine ⟨hturn.1, ?_, hdrops⟩
  exact (Function.forall_update_iff w.fleet.loops fun _ l => l.phase.isRebuilding = false).2
    ⟨hturn.2, fun j _ => hu.calm j⟩

omit [DecidableEq ι] in
/-- Whatever happens then is fenced. -/
theorem Unasked.fenced (hu : w.Unasked h) (hw : w.Intact h) (a : Fleet.Act ι) :
    w.Fenced h.view a := by
  have hdropping (i : ι) : (w.fleet.loops i).phase.isDropping = false :=
    Phase.isDropping_of_not_isRebuilding (hu.calm i)
  cases a with
  | step i stop v =>
    refine ⟨fun _ => ?_, fun hd => ?_⟩
    · have hle := hw.read_le i
      have hdrops := hu.drops
      omega
    · rw [hdropping i] at hd
      cases hd
  | cut i =>
    intro hd
    rw [hdropping i] at hd
    cases hd
  | _ => trivial

theorem Unasked.act (hu : w.Unasked h) (hw : w.Intact h) {a : Fleet.Act ι}
    (ha : a ≠ .requestReset h.view) : (w.act a).Unasked h := by
  have hput (i : ι) (l : ViewLoop σ) (hl : l.phase.isRebuilding = false) :
      Unasked h { w with fleet := w.fleet.put i l w.fleet.shared } :=
    ⟨hu.idle, (Function.forall_update_iff w.fleet.loops fun _ l => l.phase.isRebuilding = false).2
      ⟨hl, fun j _ => hu.calm j⟩, hu.drops⟩
  cases a with
  | step i stop v => exact hu.turn (hw.follows i).1 (ViewLoop.step_turn ..)
  | cut i => exact hput i _ rfl
  | restart i =>
    change Unasked h { w with fleet := if (w.fleet.loops i).phase.isOver then _ else w.fleet }
    split
    · exact hput i _ rfl
    · exact hu
  | requestReset view =>
    refine ⟨?_, hu.calm, hu.drops⟩
    have hne : h.view ≠ view := fun heq => ha (congrArg Fleet.Act.requestReset heq.symm)
    change (WatermarkTable.requestReset _ _ view).resetRequested h.view = false
    rw [WatermarkTable.resetRequested_requestReset, hu.idle]
    simp [hne]
  | append a => exact ⟨hu.idle, hu.calm, hu.drops⟩
  | command c editor at_ => exact ⟨hu.idle, hu.calm, hu.drops⟩
  | pass d => exact ⟨hu.idle, hu.calm, hu.drops⟩

/-- A run in which nobody asks for the view to be built again is fenced, whatever fails and whatever
lease expires. -/
theorem Unasked.fencedRun (hu : w.Unasked h) (hw : w.Intact h) {acts : List (Fleet.Act ι)}
    (hacts : ∀ a ∈ acts, a ≠ .requestReset h.view) : w.FencedRun h.view acts := by
  induction acts generalizing w with
  | nil => trivial
  | cons a acts ih =>
    have hfenced := hu.fenced hw a
    have ha : a ≠ .requestReset h.view := hacts a List.mem_cons_self
    exact ⟨hfenced, ih (hu.act hw ha) (hw.act a hfenced)
      fun b hb => hacts b (List.mem_cons_of_mem _ hb)⟩

end Watched

/-! ## The start -/

theorem Watched.intact_watch {ι σ : Type} (h : Handler σ) (setup : ι → LoopSetup) (now : Instant)
    {log : EventLog} (n : log.Numbered) (leases : LeaseTable) (views : σ) :
    (h.watch setup now log leases views).Intact h :=
  ⟨n, fun _ => ⟨rfl, rfl⟩, fun _ => Nat.le_refl 0,
    .inr (.inr ⟨.zero n, fun _ _ => ⟨nofun, nofun⟩⟩)⟩

theorem Watched.unasked_watch {ι σ : Type} (h : Handler σ) (setup : ι → LoopSetup) (now : Instant)
    (log : EventLog) (leases : LeaseTable) (views : σ) :
    (h.watch setup now log leases views).Unasked h :=
  ⟨rfl, fun _ => rfl, rfl⟩

end Chronicle
