import Chronicle.Proofs.Loop.Lapse
import Chronicle.Proofs.Loop.Rebuild
/-!
# Former holders

A loop that has lost its lease in the middle of a fold goes on to record it. If the view was cleared
and its watermark dropped meanwhile, the record puts the watermark up again, over events that have not
been folded since.

* `Fleet.Act.Smooth`: what happens without faults;
* `Fleet.AtOdds`: a loop is about to record while another one is about to clear the view;
* **`Watched.not_rebuilt_of_atOdds`**: three steps then skip an event;
* `Handler.exists_atOdds`: this happens to any handler that folds the first event of a log;
* **`Handler.rebuilt_of_fenced`**: nothing is skipped as long as no former holder moves the watermark
  up, and something can be as soon as one may.
-/

namespace Chronicle

/-- What happens when no call fails and no loop is cut off: loops take steps, the view is asked to be
built again, time passes. -/
def Fleet.Act.Smooth {ι : Type} : Fleet.Act ι → Prop
  | .step _ _ v => v = .pass
  | .requestReset _ => True
  | .pass _ => True
  | _ => False

/-! ## Steps of a rebuild -/

namespace ViewLoop

variable {σ : Type} {now : Instant} {l : ViewLoop σ} {s : Shared σ} {c : Cycle} {e : Event}
  {es : List Event}

theorem step_asked (h : l.phase = .checkingReset c)
    (asked : s.marks.resetRequested l.handler.view = true) :
    l.step now false .pass s = ⟨{ l with phase := .clearing c }, s, []⟩ := by
  unfold step
  rw [h]
  dsimp only
  rw [asked]
  rfl

theorem step_clearing (h : l.phase = .clearing c) :
    l.step now false .pass s
      = ⟨{ l with phase := .dropping c }, { s with views := l.handler.clear s.views }, []⟩ := by
  unfold step
  rw [h]
  rfl

theorem step_dropping (h : l.phase = .dropping c) :
    l.step now false .pass s
      = ⟨{ l with mark := 0, phase := .locating c },
          { s with marks := s.marks.drop l.handler.view }, [.viewCleared]⟩ := by
  unfold step
  rw [h]
  rfl

/-- From the start of a cycle to the clearing of a view that is to be built again. -/
theorem leads_clearing {leases : LeaseTable} (ready : l.phase = .ready)
    (lease : s.leases.renew now l.config.holder l.handler.view l.config.lockWait = .ok leases)
    (asked : s.marks.resetRequested l.handler.view = true) :
    Leads now l s { l with phase := .clearing ⟨now, 0⟩ } { s with leases := leases } := by
  refine .cons (step_ready ready) (.cons (step_acquiring rfl lease) ?_)
  exact .cons (step_asked rfl asked) (.stay ..)

/-- From the start of a cycle to the recording of the first event of its page. -/
theorem leads_recording {leases : LeaseTable} (ready : l.phase = .ready)
    (lease : s.leases.renew now l.config.holder l.handler.view l.config.lockWait = .ok leases)
    (idle : s.marks.resetRequested l.handler.view = false)
    (page : (s.log.behind l.handler.query (s.marks.current l.handler.view)).take l.config.batchSize
      = e :: es)
    (prompt : l.handler.delay.nanos = 0) (lasts : 0 < l.config.heartbeat.nanos)
    (ok : (l.handler.fold s.views e).error = none) :
    ∃ c p, Leads now l s
      { l with mark := s.marks.current l.handler.view, phase := .recording c e p }
      { s with leases := leases, views := (l.handler.fold s.views e).write s.views } := by
  have hwriting : Leads now
      { l with
        mark := s.marks.current l.handler.view
        phase := .between ⟨now, 0⟩ ⟨e :: es, (e :: es).length⟩ }
      { s with leases := leases }
      { l with
        mark := s.marks.current l.handler.view
        phase := .writing ⟨now, 0⟩ e ⟨es, (e :: es).length⟩ (l.handler.fold s.views e) }
      { s with leases := leases } :=
    leads_writing rfl prompt (by rw [now.since_self]; exact lasts)
  refine ⟨⟨now, 0⟩, ⟨es, (e :: es).length⟩, (leads_page ready lease idle page).trans (hwriting.trans ?_)⟩
  exact .cons (step_writing rfl ok) (.stay ..)

end ViewLoop

/-! ## A record that comes late -/

/-- The loop `i` is about to record the fold of `e`, and the loop `j` is about to clear the view. -/
structure Fleet.AtOdds {ι σ : Type} (h : Handler σ) (i j : ι) (e : Event) (f : Fleet ι σ) :
    Prop where
  recording : ∃ c p, (f.loops i).phase = .recording c e p
  clearing : ∃ c, (f.loops j).phase = .clearing c
  view : ∀ k, (f.loops k).handler.view = h.view
  others : ∀ k, (f.loops k).phase.isDropping = false
  logged : e ∈ f.shared.log.events
  admitted : h.query.admits e = true

/-- The loop `j` takes two steps, and the loop `i` takes one. -/
def crossing {ι : Type} (i j : ι) : List (Fleet.Act ι) :=
  [.step j false .pass, .step j false .pass, .step i false .pass]

theorem smooth_crossing {ι : Type} (i j : ι) : ∀ a ∈ crossing i j, a.Smooth := by
  intro a ha
  simp only [crossing, List.mem_cons, List.not_mem_nil, or_false] at ha
  rcases ha with rfl | rfl | rfl <;> rfl

section late

variable {ι σ : Type} [DecidableEq ι] {h : Handler σ} {w : Watched ι σ} {i j : ι} {c : Cycle}
  {e : Event} {p : Page}

namespace Watched

theorem act_clearing (was : (w.fleet.loops i).phase = .clearing c) :
    w.act (.step i false .pass)
      = { w with
          folded := []
          fleet := w.fleet.put i { w.fleet.loops i with phase := .dropping c }
            { w.fleet.shared with
              views := (w.fleet.loops i).handler.clear w.fleet.shared.views } } :=
  act_of_step (ViewLoop.step_clearing was) (some .cleared) (by rw [was]; rfl)

theorem act_dropping (was : (w.fleet.loops i).phase = .dropping c) :
    w.act (.step i false .pass)
      = { w with
          drops := w.drops + 1
          fleet := w.fleet.put i { w.fleet.loops i with mark := 0, phase := .locating c }
            { w.fleet.shared with
              marks := w.fleet.shared.marks.drop (w.fleet.loops i).handler.view } } :=
  act_of_step (ViewLoop.step_dropping was) (some .dropped) (by rw [was]; rfl)

theorem act_recording (was : (w.fleet.loops i).phase = .recording c e p) :
    w.act (.step i false .pass)
      = { w with
          fleet := w.fleet.put i
            { w.fleet.loops i with
              mark := e.position
              phase := .between { c with processed := c.processed + 1 } p }
            { w.fleet.shared with
              marks := w.fleet.shared.marks.advance w.fleet.now (w.fleet.loops i).handler.view
                e.position } } :=
  act_of_step (ViewLoop.step_recording was) none (by rw [was]; rfl)

/-- A record puts the watermark up to an event that is not folded any more, once the view is cleared
and its watermark dropped. -/
theorem not_rebuilt_of_emptied (recording : (w.fleet.loops i).phase = .recording c e p)
    (view : (w.fleet.loops i).handler.view = h.view) (empty : w.folded = [])
    (unasked : w.fleet.shared.marks.resetRequested h.view = false)
    (others : ∀ k, (w.fleet.loops k).phase.isDropping = false)
    (logged : e ∈ w.fleet.shared.log.events) (admitted : h.query.admits e = true) :
    ¬(w.act (.step i false .pass)).Rebuilt h := by
  intro hrebuilt
  rw [act_recording recording, view] at hrebuilt
  have hle : e.position
      ≤ (w.fleet.shared.marks.advance w.fleet.now h.view e.position).current h.view := by
    rw [WatermarkTable.current_advance]
    omega
  have hfolded := hrebuilt ((WatermarkTable.resetRequested_advance ..).trans unasked) ?_
    e logged admitted hle
  · rw [empty] at hfolded
    cases hfolded
  · refine (Function.forall_update_iff w.fleet.loops fun _ l => l.phase.isDropping = false).2
      ⟨rfl, fun k _ => others k⟩

/-- **Former holders.** While a loop is about to record the fold of an event, another one clears the
view and drops the watermark. Then the event is up to the watermark again, and skipped. -/
theorem not_rebuilt_of_atOdds (ho : w.fleet.AtOdds h i j e) :
    ¬(w.run (crossing i j)).Rebuilt h := by
  obtain ⟨c, p, hrecording⟩ := ho.recording
  obtain ⟨c₂, hclearing⟩ := ho.clearing
  have hij : i ≠ j := by
    rintro rfl
    cases hrecording.symm.trans hclearing
  -- the view is cleared
  obtain ⟨w₁, hw₁⟩ : ∃ w₁, w.act (.step j false .pass) = w₁ := ⟨_, rfl⟩
  have h₁ := hw₁.symm.trans (act_clearing hclearing)
  have hj₁ : w₁.fleet.loops j = { w.fleet.loops j with phase := .dropping c₂ } := by
    rw [h₁]
    exact w.fleet.loops_put_self ..
  have hk₁ : ∀ k, k ≠ j → w₁.fleet.loops k = w.fleet.loops k := by
    rw [h₁]
    exact fun k hk => w.fleet.loops_put_of_ne hk ..
  -- the watermark is dropped
  obtain ⟨w₂, hw₂⟩ : ∃ w₂, w₁.act (.step j false .pass) = w₂ := ⟨_, rfl⟩
  have h₂ := hw₂.symm.trans (act_dropping (by rw [hj₁]))
  have hj₂ : w₂.fleet.loops j = { w.fleet.loops j with mark := 0, phase := .locating c₂ } := by
    rw [h₂, hj₁]
    exact w₁.fleet.loops_put_self ..
  have hk₂ : ∀ k, k ≠ j → w₂.fleet.loops k = w.fleet.loops k := by
    intro k hk
    rw [← hk₁ k hk, h₂]
    exact w₁.fleet.loops_put_of_ne hk ..
  have hempty : w₂.folded = [] := by rw [h₂, h₁]
  have hlog : w₂.fleet.shared.log = w.fleet.shared.log := by
    rw [h₂, h₁]
    rfl
  have hmarks : w₂.fleet.shared.marks = w.fleet.shared.marks.drop h.view := by
    rw [h₂, hj₁, ← ho.view j, h₁]
    rfl
  have hrun : w.run (crossing i j) = w₂.act (.step i false .pass) := by
    rw [← hw₂, ← hw₁]
    rfl
  rw [hrun]
  refine not_rebuilt_of_emptied (c := c) (p := p) ?_ ?_ hempty ?_ (fun k => ?_) (hlog ▸ ho.logged)
    ho.admitted
  · rw [hk₂ i hij, hrecording]
  · rw [hk₂ i hij, ho.view]
  · rw [hmarks, WatermarkTable.resetRequested_drop]
  · by_cases hk : k = j
    · rw [hk, hj₂]
      rfl
    · rw [hk₂ k hk, ho.others]

end Watched
end late

/-! ## Every handler -/

/-- The first loop takes steps, its lease expires, the view is asked to be built again, and the second
loop takes steps. -/
def handingOver (view : String) (k₁ k₂ : Nat) : List (Fleet.Act Bool) :=
  List.replicate k₁ (.step true false .pass)
    ++ [.pass (Duration.ofSecs 31), .requestReset view]
    ++ List.replicate k₂ (.step false false .pass)

theorem smooth_handingOver (view : String) (k₁ k₂ : Nat) :
    ∀ a ∈ handingOver view k₁ k₂, a.Smooth := by
  intro a ha
  simp only [handingOver, List.mem_append, List.mem_replicate, List.mem_cons, List.not_mem_nil,
    or_false] at ha
  rcases ha with (⟨-, rfl⟩ | rfl | rfl) | ⟨-, rfl⟩ <;> first | rfl | trivial

section every

variable {σ : Type} (h : Handler σ) {log : EventLog} {views : σ} {e : Event} {rest : List Event}

/-- The first of two loops gets to where it records the first event of a log, and holds the lease. -/
theorem Handler.exists_recording (hb : log.behind h.query 0 = e :: rest)
    (ok : (h.fold views e).error = none) :
    let f := (h.watch (ViewKind.lapsing 0) ⟨0⟩ log Index.empty views).fleet
    ∃ k l s, f.run (List.replicate k (.step true false .pass)) = f.put true l s ∧
      (∃ c p, l.phase = .recording c e p) ∧ l.handler.view = h.view ∧ s.log = log ∧
      s.leases.get? h.view = some ⟨"a", (⟨0⟩ : Instant).deadline (Duration.ofSecs 30)⟩ := by
  intro f
  have hlasts : 0 < (ViewKind.lapsing 0 true).config.heartbeat.nanos :=
    Nat.lt_of_lt_of_eq (by decide) (ViewKind.heartbeat_lapsing 0 true).symm
  have hpage : (log.behind h.query 0).take 1 = [e] := by
    rw [hb]
    rfl
  obtain ⟨c, p, hlead⟩ := ViewLoop.leads_recording (l := f.loops true) (s := f.shared) rfl rfl rfl
    hpage rfl hlasts ok
  obtain ⟨k, hrun⟩ := Fleet.exists_run_of_leads (f := f) (i := true) rfl rfl rfl hlead
  exact ⟨k, _, _, hrun, ⟨c, p, rfl⟩, rfl, rfl, Index.get?_insert_self ..⟩

/-- Then its lease expires, and the second loop gets to where it builds the view again. -/
theorem Handler.exists_atOdds (hb : log.behind h.query 0 = e :: rest)
    (ok : (h.fold views e).error = none) :
    ∃ k₁ k₂, ((h.watch (ViewKind.lapsing 0) ⟨0⟩ log Index.empty views).fleet.run
      (handingOver h.view k₁ k₂)).AtOdds h true false e := by
  obtain ⟨hlogged, hadmitted, -⟩ := EventLog.mem_behind_iff.1 (hb ▸ List.mem_cons_self)
  obtain ⟨k₁, l, s, hrun₁, ⟨c, p, hrecording⟩, hview, hlog, hlease⟩ := h.exists_recording hb ok
  let f := (((h.watch (ViewKind.lapsing 0) ⟨0⟩ log Index.empty views).fleet.put true l s).act
    (.pass (Duration.ofSecs 31))).act (.requestReset h.view)
  have hexpired : (Lease.mk "a" ((⟨0⟩ : Instant).deadline (Duration.ofSecs 30))).live
      ViewKind.lapsed = false := by
    decide +kernel
  have hasked : f.shared.marks.resetRequested h.view = true := by
    change (WatermarkTable.requestReset ..).resetRequested h.view = true
    simp
  have hlead : ViewLoop.Leads ViewKind.lapsed (f.loops false) f.shared _ _ :=
    ViewLoop.leads_clearing rfl (LeaseTable.renew_expired hlease hexpired) hasked
  obtain ⟨k₂, hrun₂⟩ := Fleet.exists_run_of_leads (f := f) (i := false) rfl rfl rfl hlead
  refine ⟨k₁, k₂, ?_⟩
  unfold handingOver
  rw [Fleet.run_append, Fleet.run_append, hrun₁]
  change (f.run _).AtOdds h true false e
  rw [hrun₂]
  refine ⟨⟨c, p, hrecording⟩, ⟨_, rfl⟩, fun k => ?_, fun k => ?_, ?_, hadmitted⟩
  · cases k with
    | true => exact hview
    | false => rfl
  · cases k with
    | true =>
      change l.phase.isDropping = false
      rw [hrecording]
      rfl
    | false => rfl
  · change e ∈ s.log.events
    rw [hlog]
    exact hlogged

end every

/-- **Rebuilding.** Loops follow the view of a handler over a log that attempts to append led to, with
any calls failing, any loops cut off, any leases lapsing, and any appends and requests in between. Every
event up to the watermark has been folded since the view was last cleared, unless the view is to be
built again or a loop is about to drop the watermark. This holds as long as no loop moves the watermark
up that has not read it since it was last dropped, and as long as no loop is lost between clearing the
view and dropping the watermark without leaving a request. It holds of all runs in which nobody asks for
the view to be built again. But two loops can skip the first event of the log without any fault, if the
handler can fold it. -/
theorem Handler.rebuilt_of_fenced {σ : Type} (h : Handler σ) (schemas : Option SchemaSet)
    (attempts : List Attempt) (views : σ) :
    let log := ({ schemas := schemas } : EventLog).tried attempts
    (∀ (ι : Type) [DecidableEq ι] (setup : ι → LoopSetup) (now : Instant) (leases : LeaseTable)
        (acts : List (Fleet.Act ι)),
      (h.watch setup now log leases views).FencedRun h.view acts ∨
          (∀ a ∈ acts, a ≠ .requestReset h.view) →
        ((h.watch setup now log leases views).run acts).Rebuilt h) ∧
    ∀ e rest, log.behind h.query 0 = e :: rest → (h.fold views e).error = none →
      ∃ (setup : Bool → LoopSetup) (acts : List (Fleet.Act Bool)),
        (setup true).config.holder ≠ (setup false).config.holder ∧ (∀ a ∈ acts, a.Smooth) ∧
          ¬((h.watch setup ⟨0⟩ log Index.empty views).run acts).Rebuilt h := by
  intro log
  have n : log.Numbered := (EventLog.numbered_of_events_eq_nil rfl).tried attempts
  constructor
  · intro ι _ setup now leases acts hacts
    have hintact : (h.watch setup now log leases views).Intact h :=
      Watched.intact_watch h setup now n leases views
    have hunasked := Watched.unasked_watch h setup now log leases views
    have hfenced : (h.watch setup now log leases views).FencedRun h.view acts :=
      hacts.elim id fun hreset => hunasked.fencedRun hintact hreset
    exact (hintact.run hfenced).rebuilt
  · intro e rest hb ok
    obtain ⟨k₁, k₂, hodds⟩ := h.exists_atOdds hb ok
    refine ⟨ViewKind.lapsing 0, handingOver h.view k₁ k₂ ++ crossing true false,
      show "a" ≠ "b" by decide, fun a ha => ?_, ?_⟩
    · rcases List.mem_append.1 ha with ha | ha
      · exact smooth_handingOver h.view k₁ k₂ a ha
      · exact smooth_crossing true false a ha
    · rw [← Watched.fleet_run] at hodds
      rw [Watched.run_append]
      exact Watched.not_rebuilt_of_atOdds hodds

/-- A view that is built again by another loop once the lease has expired, with no former holder in its
way; and the same view with one. -/
theorem Handler.rebuilt_of_fenced_handover :
    let h := ViewKind.lockout.handler (Duration.ofSecs 1) Duration.zero
    let attempts := (Command.prepare ⟨.lockout (.org "acme"), .add ⟨5, true⟩⟩ "root" ⟨0⟩
      []).toOption.toList
    let log := ({} : EventLog).tried attempts
    let setup (i : Bool) : LoopSetup :=
      { config := { holder := if i then "a" else "b" }, cycle := Duration.ofSecs 1 }
    let acts : List (Fleet.Act Bool) :=
      List.replicate 12 (.step true false .pass)
        ++ [.requestReset h.view, .pass (Duration.ofSecs 60)]
        ++ List.replicate 12 (.step false false .pass)
    let w := (h.watch setup ⟨0⟩ log Index.empty {}).run acts
    (h.watch setup ⟨0⟩ log Index.empty {}).FencedRun h.view acts ∧
      w.drops = 1 ∧ w.fleet.shared.marks.current h.view = 1 ∧ w.Rebuilt h ∧
      ∃ (setup : Bool → LoopSetup) (acts : List (Fleet.Act Bool)),
        (setup true).config.holder ≠ (setup false).config.holder ∧ (∀ a ∈ acts, a.Smooth) ∧
          ¬((h.watch setup ⟨0⟩ log Index.empty {}).run acts).Rebuilt h := by
  intro h attempts log setup acts w
  have hfenced : (h.watch setup ⟨0⟩ log Index.empty {}).FencedRun h.view acts := by
    decide +kernel
  have hrun : w.drops = 1 ∧ w.fleet.shared.marks.current h.view = 1 := by
    decide +kernel
  have hfirst : (log.behind h.query 0).head?.map (fun e => (h.fold {} e).error) = some none := by
    decide +kernel
  have hrebuilt := (rebuilt_of_fenced h none attempts {}).1 Bool setup ⟨0⟩ Index.empty acts
    (.inl hfenced)
  refine ⟨hfenced, hrun.1, hrun.2, hrebuilt, ?_⟩
  cases hb : log.behind h.query 0 with
  | nil =>
    rw [hb] at hfirst
    cases hfirst
  | cons e rest =>
    rw [hb] at hfirst
    exact (rebuilt_of_fenced h none attempts {}).2 e rest hb (Option.some.inj hfirst)

/-- Two policies are added. The lease of one loop expires before it records the second of them, another
loop builds the view again, and then the record comes. Both loops end their cycles over an empty view
that counts as up to date. -/
theorem Handler.not_rebuilt_of_late_record :
    let h := ViewKind.lockout.handler (Duration.ofSecs 1) Duration.zero
    let log := EventLog.fresh.after
      [⟨⟨.lockout (.org "acme"), .add ⟨5, true⟩⟩, "root", ⟨0⟩⟩,
        ⟨⟨.lockout (.org "beta"), .add ⟨5, true⟩⟩, "root", ⟨0⟩⟩]
    let setup (i : Bool) : LoopSetup :=
      { config := { holder := if i then "a" else "b" }, cycle := Duration.ofSecs 1 }
    let acts := handingOver h.view 12 3 ++ crossing true false
      ++ List.replicate 3 (.step false false .pass) ++ [.step true false .pass]
    let w := (h.watch setup ⟨0⟩ log Index.empty {}).run acts
    (setup true).config.holder ≠ (setup false).config.holder ∧ (∀ a ∈ acts, a.Smooth) ∧
      (∀ i, (w.fleet.loops i).phase.inCycle = false) ∧
      w.fleet.shared.marks.current h.view = 2 ∧
      (ViewKind.lockout.rows w.fleet.shared.views).keys = [] ∧ ¬w.Rebuilt h := by
  intro h log setup acts w
  have hrun : (∀ i, (w.fleet.loops i).phase.inCycle = false) ∧
      w.fleet.shared.marks.resetRequested h.view = false ∧
      (∀ i, (w.fleet.loops i).phase.isDropping = false) ∧
      w.fleet.shared.marks.current h.view = 2 ∧
      (ViewKind.lockout.rows w.fleet.shared.views).keys = [] ∧ w.folded.isEmpty = true ∧
      (w.fleet.shared.log.covered h.query 2).length = 2 := by
    decide +kernel
  obtain ⟨hout, hasked, hidle, hmark, hkeys, hfolded, hcovered⟩ := hrun
  have hsmooth : ∀ a ∈ acts, a.Smooth := by
    intro a ha
    simp only [acts, List.mem_append, List.mem_replicate, List.mem_singleton] at ha
    rcases ha with ((ha | ha) | ⟨-, rfl⟩) | rfl
    · exact smooth_handingOver h.view 12 3 a ha
    · exact smooth_crossing true false a ha
    · rfl
    · rfl
  refine ⟨by decide, hsmooth, hout, hmark, hkeys, fun hrebuilt => ?_⟩
  obtain ⟨e, he⟩ := List.exists_mem_of_length_pos (Nat.lt_of_lt_of_eq Nat.two_pos hcovered.symm)
  obtain ⟨hlogged, hadmitted, hle⟩ := EventLog.mem_covered_iff.1 he
  have hmem := hrebuilt hasked hidle e hlogged hadmitted (by rw [hmark]; exact hle)
  rw [List.isEmpty_iff.1 hfolded] at hmem
  cases hmem

end Chronicle
