import Chronicle.Proofs.Loop.Position
import Chronicle.Proofs.View.Stale
/-!
# Loops that overlap

A lease may expire between the step in which a loop looks at it and the fold that follows, so two
loops can be in a cycle at once and one can write long after the other has gone on. Without
removals this is harmless: a write that comes late changes nothing, and the rows are never more than
one event ahead of the watermark, with a loop about to record it.

* `Fleet.Act.Plain`: what happens without faults and without requests to build the view again;
* `ViewKind.Lasting`: logs in which no row ends;
* `ViewKind.Trails`: a loop is at or behind the position that the rows are up to;
* `Fleet.Steady`: the invariant, and **`Fleet.Steady.act`**: everything plain keeps it.
-/

namespace Chronicle

/-- What happens when no call fails, no loop is cut off, and nobody asks for a view to be built
again: loops take steps, commands are handled, time passes. -/
def Fleet.Act.Plain {ι : Type} : Fleet.Act ι → Prop
  | .step _ _ v => v = .pass
  | .command .. => True
  | .pass _ => True
  | _ => False

/-- No event that the view follows ends a row. -/
def ViewKind.Lasting (v : ViewKind) (log : EventLog) : Prop :=
  ∀ e ∈ log.events, v.query.admits e = true → ¬v.projection.Drops e

/-- Mail texts are never taken back. -/
theorem ViewKind.lasting_mailText (log : EventLog) : mailText.Lasting log := by
  rintro e - - ⟨key, hi⟩
  change mailTextProjection.instruction e = _ at hi
  rw [mailTextProjection_instruction] at hi
  unfold MailText.instruction at hi
  generalize PolicyEvent.codec.decode e = decoded at hi
  rcases decoded with _ | (_ | _ | _ | _) <;> cases hi

theorem ViewKind.Lasting.not_drops {v : ViewKind} {log : EventLog} (h : v.Lasting log) {w : Int} :
    ∀ e ∈ log.covered v.query w, ¬v.projection.Drops e := by
  intro e he
  obtain ⟨hmem, hadmits, -⟩ := EventLog.mem_covered_iff.1 he
  exact h e hmem hadmits

/-- The loop is at or behind the position `x` that the rows are up to: its page is what comes behind
a position that the watermark has passed, its fold was decided on the rows as they are or is of an
event at or below `x`, and so is what it has folded and not recorded. -/
def ViewKind.Trails (v : ViewKind) (x : Int) (l : ViewLoop Stores) (s : Shared Stores) : Prop :=
  match l.phase with
  | .clearing _ => False
  | .dropping _ => False
  | .paging _ => l.mark ≤ v.mark s
  | .between _ p => l.mark ≤ v.mark s ∧ p.rest <+: s.log.behind v.query l.mark
  | .renewing _ e p => l.mark ≤ v.mark s ∧ e :: p.rest <+: s.log.behind v.query l.mark
  | .waiting _ _ e p => l.mark ≤ v.mark s ∧ e :: p.rest <+: s.log.behind v.query l.mark
  | .folding _ e p => l.mark ≤ v.mark s ∧ e :: p.rest <+: s.log.behind v.query l.mark
  | .writing _ e p f =>
    (l.mark ≤ v.mark s ∧ e :: p.rest <+: s.log.behind v.query l.mark) ∧
      ∃ s₀, f = l.handler.fold s₀ e ∧ (v.rows s₀).Keyed ∧
        (e.position ≤ x ∨ v.rows s₀ = v.rows s.views)
  | .recording _ e p =>
    (l.mark ≤ v.mark s ∧ e :: p.rest <+: s.log.behind v.query l.mark) ∧ e.position ≤ x
  | _ => True

namespace ViewKind

variable {v : ViewKind} {x y : Int} {l : ViewLoop Stores} {s s' : Shared Stores} {e : Event}
  {p : Page}

theorem trails_of_not_inCycle (h : l.phase.inCycle = false) : v.Trails x l s := by
  unfold Trails
  cases hp : l.phase <;> first | trivial | (rw [hp] at h; cases h)

theorem trails_iff_of_facing (h : l.phase.facing? = some (e, p)) :
    v.Trails x l s ↔ l.mark ≤ v.mark s ∧ e :: p.rest <+: s.log.behind v.query l.mark := by
  unfold Trails
  cases hp : l.phase <;> rw [hp] at h <;> cases h <;> rfl

/-- A loop goes on trailing while log, watermark and rows move up. -/
theorem Trails.mono (h : v.Trails x l s) (hlog : s.log.events <+: s'.log.events)
    (hm : v.mark s ≤ v.mark s') (hx : x ≤ y)
    (hv : v.rows s'.views = v.rows s.views ∨
      ∀ c e p f, l.phase = .writing c e p f → e.position ≤ y) : v.Trails y l s' := by
  have hb (w : Int) := EventLog.behind_prefix (q := v.query) (w := w) hlog
  unfold Trails at h ⊢
  cases hp : l.phase <;> simp only [hp] at h ⊢
  case paging c => exact Int.le_trans h hm
  case between c p => exact ⟨Int.le_trans h.1 hm, h.2.trans (hb _)⟩
  case renewing c e p => exact ⟨Int.le_trans h.1 hm, h.2.trans (hb _)⟩
  case waiting wake c e p => exact ⟨Int.le_trans h.1 hm, h.2.trans (hb _)⟩
  case folding c e p => exact ⟨Int.le_trans h.1 hm, h.2.trans (hb _)⟩
  case writing c e p f =>
    obtain ⟨hpage, s₀, hf, hk, hs⟩ := h
    refine ⟨⟨Int.le_trans hpage.1 hm, hpage.2.trans (hb _)⟩, s₀, hf, hk, ?_⟩
    rcases hv with hv | hv
    · rw [hv]
      exact hs.imp_left fun he => Int.le_trans he hx
    · exact .inl (hv c e p f hp)
  case recording c e p =>
    exact ⟨⟨Int.le_trans h.1.1 hm, h.1.2.trans (hb _)⟩, Int.le_trans h.2 hx⟩

/-- The next event of a loop is one that the watermark has passed, or the next one behind it. -/
theorem le_or_next {m : Int} {es : List Event} (n : s.log.Numbered) (hm : m ≤ v.mark s)
    (hp : e :: es <+: s.log.behind v.query m) :
    e.position ≤ v.mark s ∨ ∃ rest, s.log.behind v.query (v.mark s) = e :: rest := by
  obtain ⟨more, hmore⟩ := hp
  obtain ⟨passed, hb, -, hle⟩ := n.split (q := v.query) hm
  rw [← hmore] at hb
  cases passed with
  | nil => exact .inr ⟨_, hb.symm⟩
  | cons f passed =>
    rw [List.cons_append, List.cons_append] at hb
    obtain ⟨rfl, -⟩ := List.cons.inj hb
    exact .inl (hle _ List.mem_cons_self)

end ViewKind

/-! ## The invariant -/

namespace Fleet

variable {ι : Type} [DecidableEq ι] {v : ViewKind} {f : Fleet ι Stores} {x : Int} {i : ι}
  {l' : ViewLoop Stores} {s' : Shared Stores}

/-- What holds of a fleet on `v` whatever its loops do without faults. The rows are up to `x`, which
is the watermark or the next event behind it, and then a loop is about to record that event. -/
structure Steady (v : ViewKind) (f : Fleet ι Stores) (x : Int) : Prop where
  numbered : f.shared.log.Numbered
  handler : ∀ i, ∃ cycle delay, (f.loops i).handler = v.handler cycle delay
  idle : ¬v.pending f.shared
  mark_le : v.mark f.shared ≤ x
  reached : x ≤ f.shared.log.events.length
  upTo : v.UpTo f.shared x
  ahead : x = v.mark f.shared ∨
    ∃ i c e p rest, (f.loops i).phase = .recording c e p ∧
      f.shared.log.behind v.query (v.mark f.shared) = e :: rest ∧ x = e.position
  trails : ∀ i, v.Trails x (f.loops i) f.shared

/-- A step that leaves log, watermarks and rows as they are, and no fold unrecorded. -/
theorem Steady.frame (h : f.Steady v x) (hl : s'.log = f.shared.log)
    (hm : s'.marks = f.shared.marks) (hv : v.rows s'.views = v.rows f.shared.views)
    (hh : l'.handler = (f.loops i).handler)
    (hr : ∀ c e p, (f.loops i).phase ≠ .recording c e p)
    (ht : v.Trails x (f.loops i) f.shared → v.Trails x l' f.shared) :
    (f.put i l' s').Steady v x := by
  have hmark : v.mark s' = v.mark f.shared := by
    unfold ViewKind.mark
    rw [hm]
  have hmono {l : ViewLoop Stores} (h : v.Trails x l f.shared) : v.Trails x l s' :=
    h.mono (hl.symm ▸ List.prefix_rfl) (Int.le_of_eq hmark.symm) (Int.le_refl x) (.inl hv)
  constructor
  case numbered =>
    change s'.log.Numbered
    rw [hl]
    exact h.numbered
  case handler =>
    refine (Function.forall_update_iff f.loops
      fun _ l => ∃ cycle delay, l.handler = v.handler cycle delay).2 ⟨?_, fun j _ => h.handler j⟩
    rw [hh]
    exact h.handler i
  case idle =>
    change ¬v.pending s'
    unfold ViewKind.pending
    rw [hm]
    exact h.idle
  case mark_le => exact Int.le_trans (Int.le_of_eq hmark) h.mark_le
  case reached =>
    change x ≤ s'.log.events.length
    rw [hl]
    exact h.reached
  case upTo =>
    change v.UpTo s' x
    unfold ViewKind.UpTo
    rw [hl, hv]
    exact h.upTo
  case ahead =>
    refine h.ahead.imp (fun hx => hx.trans hmark.symm) ?_
    rintro ⟨k, c, e, p, rest, hk, hb, hx⟩
    have hne : k ≠ i := fun hki => hr c e p (hki ▸ hk)
    refine ⟨k, c, e, p, rest, ?_, ?_, hx⟩
    · change (Function.update f.loops i l' k).phase = _
      rw [Function.update_of_ne hne, hk]
    · change s'.log.behind v.query (v.mark s') = _
      rw [hl, hmark, hb]
  case trails =>
    exact (Function.forall_update_iff f.loops fun _ l => v.Trails x l s').2
      ⟨hmono (ht (h.trails i)), fun j _ => hmono (h.trails j)⟩

section turns

variable {cycle delay : Duration} {c c' : Cycle} {e : Event} {p : Page}

omit [DecidableEq ι] in
/-- The next event of a loop is one that the rows are up to, or the next one for the rows. -/
theorem Steady.le_or_next (h : f.Steady v x) {m : Int} {es : List Event}
    (hm : m ≤ v.mark f.shared) (hp : e :: es <+: f.shared.log.behind v.query m) :
    e.position ≤ x ∨ x = v.mark f.shared ∧
      ∃ rest, f.shared.log.behind v.query (v.mark f.shared) = e :: rest := by
  have hmx := h.mark_le
  rcases ViewKind.le_or_next h.numbered hm hp with hle | ⟨rest, hb⟩
  · exact .inl (Int.le_trans hle hmx)
  · rcases h.ahead with hx | ⟨k, c₂, e₂, p₂, rest₂, -, hb₂, hx₂⟩
    · exact .inr ⟨hx, rest, hb⟩
    · cases hb.symm.trans hb₂
      exact .inl (Int.le_of_eq hx₂.symm)

omit [DecidableEq ι] in
/-- The rows have reached every event at or below the position that they are up to. -/
theorem Steady.reached_of_le (h : f.Steady v x) (hd : v.Lasting f.shared.log)
    (he : e ∈ f.shared.log.events) (hadmits : v.query.admits e = true) (hx : e.position ≤ x) :
    v.projection.Reached (v.rows f.shared.views) e :=
  v.lawful.reached_of_mem h.upTo (EventLog.mem_covered_iff.2 ⟨he, hadmits, hx⟩) hd.not_drops

/-- Writing a fold. Late, it changes nothing; in time, it brings the rows up to its event. -/
theorem Steady.write (h : f.Steady v x) (hd : v.Lasting f.shared.log)
    (hh : (f.loops i).handler = v.handler cycle delay) {fold : Fold Stores}
    (was : (f.loops i).phase = .writing c e p fold) (ok : fold.error = none) :
    ∃ y, x ≤ y ∧ (f.put i { f.loops i with phase := .recording c e p }
      { f.shared with views := fold.write f.shared.views }).Steady v y := by
  have ht := h.trails i
  rw [ViewKind.Trails, was, hh] at ht
  obtain ⟨⟨hm, hpage⟩, s₀, rfl, hk, hs⟩ := ht
  obtain ⟨hlog, hadm, -⟩ := EventLog.mem_behind_iff.1 (hpage.subset List.mem_cons_self)
  rcases ViewKind.handler_fold_cases s₀ e with ⟨err, herr, -⟩ | ⟨edit, hedit, -, hwrite⟩
  · rw [herr] at ok
    cases ok
  rcases h.le_or_next hm hpage with hx | ⟨hxm, rest, hb⟩
  · have hreached := h.reached_of_le hd hlog hadm hx
    refine ⟨x, Int.le_refl x, h.frame rfl rfl ?_ rfl (by simp [was]) fun _ => ⟨⟨hm, hpage⟩, hx⟩⟩
    exact (hwrite _).trans (v.lawful.apply_eq_self hk hedit (hd e hlog hadm) hreached)
  · have hlt := (h.numbered.next hb).1
    have hrows := hs.resolve_left (by omega)
    have hup : v.projection.rowsAfter (f.shared.log.covered v.query e.position)
        = .ok (edit.apply (v.rows f.shared.views)) := by
      refine ViewKind.InStep.fold_next h.numbered (.inl (hxm ▸ h.upTo)) hb ?_
      rw [Projection.fold, ← hrows, hedit]
      rfl
    rw [← hwrite] at hup
    refine ⟨e.position, by omega, h.numbered, ?_, h.idle, Int.le_of_lt hlt,
      h.numbered.position_le hlog, hup, .inr ⟨i, c, e, p, rest, ?_, hb, rfl⟩, ?_⟩
    · exact (Function.forall_update_iff f.loops
        fun _ l => ∃ cycle delay, l.handler = v.handler cycle delay).2
          ⟨⟨cycle, delay, hh⟩, fun j _ => h.handler j⟩
    · change (Function.update f.loops i _ i).phase = _
      rw [Function.update_self]
    · refine (Function.forall_update_iff f.loops fun _ l => v.Trails e.position l _).2
        ⟨⟨⟨hm, hpage⟩, Int.le_refl _⟩, fun j _ => ?_⟩
      -- the fold that another loop is about to write is of an event at or below this one
      refine (h.trails j).mono List.prefix_rfl (Int.le_refl _) (by omega) (.inr ?_)
      intro c₂ e₂ p₂ f₂ hj
      have ht := h.trails j
      rw [ViewKind.Trails, hj] at ht
      rcases ViewKind.le_or_next h.numbered ht.1.1 ht.1.2 with hle | ⟨rest₂, hb₂⟩
      · omega
      · cases hb.symm.trans hb₂
        exact Int.le_refl _

/-- Ending a fold in an error: nothing is written. -/
theorem Steady.spoil (h : f.Steady v x) (hh : (f.loops i).handler = v.handler cycle delay)
    {fold : Fold Stores} {err : Error} (was : (f.loops i).phase = .writing c e p fold)
    (failed : fold.error = some err) (handler : l'.handler = (f.loops i).handler)
    (out : l'.phase.inCycle = false) :
    (f.put i l' { f.shared with views := fold.write f.shared.views }).Steady v x := by
  have ht := h.trails i
  rw [ViewKind.Trails, was, hh] at ht
  obtain ⟨-, s₀, rfl, -, -⟩ := ht
  refine h.frame rfl rfl ?_ handler (by simp [was]) fun _ => ViewKind.trails_of_not_inCycle out
  rcases ViewKind.handler_fold_cases s₀ e with ⟨err, -, hwrite⟩ | ⟨edit, -, hok, -⟩
  · rw [hwrite]
    rfl
  · rw [hok] at failed
    cases failed

/-- Recording a fold: the watermark moves up, though not beyond the rows. -/
theorem Steady.record (h : f.Steady v x) (was : (f.loops i).phase = .recording c e p) :
    (f.put i { f.loops i with mark := e.position, phase := .between c' p }
      { f.shared with marks := f.shared.marks.advance f.now v.view e.position }).Steady v x := by
  have ht := h.trails i
  rw [ViewKind.Trails, was] at ht
  obtain ⟨⟨hm, hpage⟩, hx⟩ := ht
  have hmx := h.mark_le
  have hmark : v.mark { f.shared with
      marks := f.shared.marks.advance f.now v.view e.position }
        = max (v.mark f.shared) e.position :=
    WatermarkTable.current_advance ..
  refine ⟨h.numbered, ?_, ?_, ?_, h.reached, h.upTo, ?_, ?_⟩
  · exact (Function.forall_update_iff f.loops
      fun _ l => ∃ cycle delay, l.handler = v.handler cycle delay).2
        ⟨h.handler i, fun j _ => h.handler j⟩
  · change ¬(WatermarkTable.advance _ _ v.view _).resetRequested v.view = true
    rw [WatermarkTable.resetRequested_advance]
    exact h.idle
  · change v.mark { f.shared with marks := _ } ≤ x
    rw [hmark]
    omega
  · change x = v.mark { f.shared with marks := _ } ∨ _
    rcases h.ahead with hx₀ | ⟨k, c₂, e₂, p₂, rest, hk, hb, hx₂⟩
    · rw [hmark]
      exact .inl (by omega)
    · by_cases hex : e.position = x
      · rw [hmark]
        exact .inl (by omega)
      · -- another loop is about to record the event that the rows are up to
        have hle : e.position ≤ v.mark f.shared := by
          refine (ViewKind.le_or_next h.numbered hm hpage).resolve_right ?_
          rintro ⟨rest₂, hb₂⟩
          cases hb.symm.trans hb₂
          exact hex hx₂.symm
        have hki : k ≠ i := by
          rintro rfl
          cases was.symm.trans hk
          exact hex hx₂.symm
        refine .inr ⟨k, c₂, e₂, p₂, rest, ?_, ?_, hx₂⟩
        · change (Function.update f.loops i _ k).phase = _
          rw [Function.update_of_ne hki, hk]
        · change f.shared.log.behind v.query (v.mark { f.shared with marks := _ }) = _
          rw [hmark, Int.max_eq_left hle, hb]
  · refine (Function.forall_update_iff f.loops fun _ l => v.Trails x l _).2 ⟨⟨?_, ?_⟩, fun j _ => ?_⟩
    · exact Int.le_trans (Int.le_max_right _ _) (Int.le_of_eq hmark.symm)
    · obtain ⟨more, hmore⟩ := hpage
      change p.rest <+: f.shared.log.behind v.query e.position
      rw [(h.numbered.next hmore.symm).2.1]
      exact List.prefix_append ..
    · refine (h.trails j).mono List.prefix_rfl ?_ (Int.le_refl x) (.inl rfl)
      exact Int.le_trans (Int.le_max_left _ _) (Int.le_of_eq hmark.symm)

end turns

/-- **Turns.** A step of a loop keeps the invariant, if its call is carried out. -/
theorem Steady.turn (h : f.Steady v x) (hd : v.Lasting f.shared.log)
    (ht : Turn f.now .pass (f.loops i) f.shared l' s') : ∃ y, x ≤ y ∧ (f.put i l' s').Steady v y := by
  obtain ⟨cycle, delay, hh⟩ := h.handler i
  have hview : (f.loops i).handler.view = v.view := by rw [hh, ViewKind.handler_view]
  have hquery : (f.loops i).handler.query = v.query := by rw [hh, ViewKind.handler_query]
  have hl := h.trails i
  have stays (hs : (f.put i l' s').Steady v x) : ∃ y, x ≤ y ∧ (f.put i l' s').Steady v y :=
    ⟨x, Int.le_refl x, hs⟩
  cases ht with
  | leave config handler out recorded =>
    exact stays (h.frame rfl rfl rfl handler (recorded rfl)
      fun _ => ViewKind.trails_of_not_inCycle out)
  | begin was => exact stays (h.frame rfl rfl rfl rfl (by simp [was]) fun _ => trivial)
  | rebuild was requested =>
    rw [hview] at requested
    exact absurd requested h.idle
  | resume was requested => exact stays (h.frame rfl rfl rfl rfl (by simp [was]) fun _ => trivial)
  | clear was =>
    rw [ViewKind.Trails, was] at hl
    exact hl.elim
  | drop was =>
    rw [ViewKind.Trails, was] at hl
    exact hl.elim
  | locate was =>
    refine stays (h.frame rfl rfl rfl rfl (by simp [was]) fun _ => ?_)
    change f.shared.marks.current (f.loops i).handler.view ≤ _
    rw [hview]
    exact Int.le_refl _
  | page was =>
    rw [ViewKind.Trails, was] at hl
    refine stays (h.frame rfl rfl rfl rfl (by simp [was]) fun _ => ⟨hl, ?_⟩)
    change f.shared.log.query (ViewLoop.pageFilter _) <+: _
    rw [ViewLoop.pageFilter, EventLog.query_startingAfter_capped, hquery]
    exact List.take_prefix ..
  | more was done =>
    rw [ViewKind.Trails, was] at hl
    exact stays (h.frame rfl rfl rfl rfl (by simp [was]) fun _ => hl.1)
  | take was next faces =>
    rw [ViewKind.Trails, was] at hl
    refine stays (h.frame rfl rfl rfl rfl (by simp [was]) fun _ => ?_)
    rw [ViewKind.trails_iff_of_facing faces]
    dsimp only
    rw [← next]
    exact hl
  | keep was faces =>
    rw [ViewKind.trails_iff_of_facing was] at hl
    refine stays (h.frame rfl rfl rfl rfl (fun c e p hp => ?_) fun _ => ?_)
    · rw [hp] at was
      cases was
    · rw [ViewKind.trails_iff_of_facing faces]
      exact hl
  | read was =>
    rw [ViewKind.Trails, was] at hl
    refine stays (h.frame rfl rfl rfl rfl (by simp [was]) fun _ => ⟨hl, f.shared.views, rfl, ?_⟩)
    exact ⟨h.upTo.keyed, .inr rfl⟩
  | write was ok => exact h.write hd hh was ok
  | spoil was failed config handler out => exact stays (h.spoil hh was failed handler out)
  | record was =>
    rw [hview]
    exact ⟨x, Int.le_refl x, h.record was⟩

omit [DecidableEq ι] in
/-- The log grows. -/
theorem Steady.grow (h : f.Steady v x) {log : EventLog} (n : log.Numbered)
    (hlog : f.shared.log.events <+: log.events) : (f.withLog log).Steady v x := by
  have hlen := hlog.length_le
  have hreached := h.reached
  refine ⟨n, h.handler, h.idle, h.mark_le, ?_, h.upTo.grow n hlog h.reached rfl,
    h.ahead.imp_right ?_, fun i => (h.trails i).mono hlog (Int.le_refl _) (Int.le_refl x) (.inl rfl)⟩
  · change x ≤ log.events.length
    omega
  · rintro ⟨i, c, e, p, rest, hi, hb, hx⟩
    obtain ⟨more, hmore⟩ := EventLog.behind_prefix (q := v.query) (w := v.mark f.shared) hlog
    refine ⟨i, c, e, p, rest ++ more, hi, ?_, hx⟩
    change log.behind v.query (v.mark f.shared) = _
    rw [← hmore, hb, List.cons_append]

/-- **Happenings.** Without faults, everything that happens keeps the invariant, and the rows do not
go back. -/
theorem Steady.act (h : f.Steady v x) (hd : v.Lasting f.shared.log) {a : Act ι} (ha : a.Plain) :
    ∃ y, x ≤ y ∧ (f.act a).Steady v y := by
  have hx := Int.le_refl x
  cases a with
  | step i stop verdict =>
    obtain rfl : verdict = .pass := ha
    exact h.turn hd (ViewLoop.step_turn ..)
  | command c editor at_ =>
    exact ⟨x, hx, h.grow (h.numbered.command c editor at_) Command.prefix_land⟩
  | pass d =>
    exact ⟨x, hx, h.numbered, h.handler, h.idle, h.mark_le, h.reached, h.upTo, h.ahead, h.trails⟩
  | cut i => exact ha.elim
  | restart i => exact ha.elim
  | append a => exact ha.elim
  | requestReset view => exact ha.elim

omit [DecidableEq ι] in
/-- A fleet at its start is steady. -/
theorem steady_fleet (v : ViewKind) (setup : ι → LoopSetup) (now : Instant)
    (schemas : Option SchemaSet) (leases : LeaseTable) :
    (v.fleet setup now schemas leases).Steady v 0 := by
  have n : (v.fleet setup now schemas leases).shared.log.Numbered :=
    EventLog.numbered_of_events_eq_nil rfl
  exact ⟨n, fun i => ⟨_, _, rfl⟩, nofun, Int.le_refl 0, Int.le_refl 0,
    ViewKind.upTo_zero n v.rows_empty, .inl rfl, fun i => trivial⟩

/-- The invariant behind a run without faults over events that drop no row. -/
theorem Steady.climb (h : f.Steady v x) {acts : List (Act ι)} (plain : ∀ a ∈ acts, a.Plain)
    (hd : v.Lasting (f.run acts).shared.log) : ∃ y, x ≤ y ∧ (f.run acts).Steady v y := by
  induction acts generalizing f x with
  | nil => exact ⟨x, Int.le_refl x, h⟩
  | cons a acts ih =>
    have hd₀ : v.Lasting f.shared.log := fun e he =>
      hd e ((prefix_run_log f (a :: acts)).subset he)
    obtain ⟨y, hxy, hy⟩ := h.act hd₀ (plain a List.mem_cons_self)
    obtain ⟨z, hyz, hz⟩ := ih hy (fun b hb => plain b (List.mem_cons_of_mem _ hb)) hd
    exact ⟨z, Int.le_trans hxy hyz, hz⟩

theorem Steady.run (h : f.Steady v x) {acts : List (Act ι)} (plain : ∀ a ∈ acts, a.Plain)
    (hd : v.Lasting (f.run acts).shared.log) : ∃ y, (f.run acts).Steady v y :=
  (h.climb plain hd).imp fun _ => And.right

omit [DecidableEq ι] in
/-- While no loop is in a cycle, the rows are up to the watermark. -/
theorem Steady.upTo_mark (h : f.Steady v x) (rest : ∀ i, (f.loops i).phase.inCycle = false) :
    v.UpTo f.shared (v.mark f.shared) := by
  rcases h.ahead with hx | ⟨i, c, e, p, more, hi, -⟩
  · exact hx ▸ h.upTo
  · have := rest i
    rw [hi] at this
    cases this

end Fleet
end Chronicle
