import Chronicle.Proofs.Leases
import Chronicle.Proofs.Loop.Drive
import Chronicle.Proofs.Loop.Overlap
/-!
# Leases that lapse

A loop looks at its lease before a fold and not again before its write. If the lease expires in
between, another loop takes over and folds on, and the write of the first one comes late. It may put
a row back that was removed meanwhile, or take out one that was put in again. Whether this can
happen depends on nothing but the log: it cannot if no event ends a row, and it can as soon as one
does.

* `Fleet.Act.Quiet`, `ViewKind.Faithful`: runs over a finished log, and what is asked of them;
* `ViewKind.Stuck.rows_eq`: where a view ends up does not depend on the loops that lead there;
* `ViewKind.Poised`: a loop that is about to write, with its lease about to expire;
* `ViewKind.exists_lapse`: the write of any event can come late, if no row ends before the event;
* **`ViewKind.faithful_iff_lasting`**: rows are right, whatever lapses, exactly if no row ends.
-/

namespace Chronicle

/-- What happens over a finished log without faults: loops take steps, and time passes. -/
def Fleet.Act.Quiet {ι : Type} : Fleet.Act ι → Prop
  | .step _ _ v => v = .pass
  | .pass _ => True
  | _ => False

theorem Fleet.Act.Quiet.plain {ι : Type} {a : Fleet.Act ι} (h : a.Quiet) : a.Plain := by
  cases a <;> first | exact h | exact h.elim

/-- Such a run leaves the log as it is. -/
theorem Fleet.log_run_of_quiet {ι σ : Type} [DecidableEq ι] (f : Fleet ι σ) {acts : List (Act ι)}
    (quiet : ∀ a ∈ acts, a.Quiet) : (f.run acts).shared.log = f.shared.log := by
  induction acts generalizing f with
  | nil => rfl
  | cons a acts ih =>
    have hact : (f.act a).shared.log = f.shared.log := by
      cases a with
      | step i stop v => exact ((f.loops i).step_turn f.shared).log_eq
      | pass d => rfl
      | _ => exact (quiet _ List.mem_cons_self).elim
    exact (ih (f.act a) fun b hb => quiet b (List.mem_cons_of_mem _ hb)).trans hact

namespace ViewKind

variable {v : ViewKind}

/-- While no loop is in a cycle, the rows are the fold of the events up to the watermark. -/
def Faithful {ι : Type} (v : ViewKind) (f : Fleet ι Stores) : Prop :=
  (∀ i, (f.loops i).phase.inCycle = false) → v.UpTo f.shared (v.mark f.shared)

/-! ## Where a view ends up -/

section stuck

variable {s s' : Shared Stores} {e e' : Event} {pre es : List Event} {w : Int}

/-- Where a view ends up does not depend on the loops that lead there. -/
theorem Stuck.rows_eq (stuck : v.Stuck s) (n : s.log.Numbered) (h : v.UpTo s (v.mark s))
    (stuck' : v.Stuck s') (h' : v.UpTo s' (v.mark s')) (hlog : s'.log = s.log) :
    v.rows s.views = v.rows s'.views := by
  wlog hle : v.mark s ≤ v.mark s' generalizing s s'
  · exact (this stuck' (hlog ▸ n) h' stuck h hlog.symm (by omega)).symm
  obtain ⟨passed, hb, hc, -⟩ := n.split (q := v.query) hle
  unfold UpTo at h h'
  rw [hlog, hc] at h'
  cases passed with
  | nil =>
    rw [List.append_nil, h] at h'
    exact Except.ok.inj h'
  | cons a passed =>
    -- the second view has gone beyond an event that the first one cannot fold
    rw [List.append_cons] at h'
    unfold Projection.rowsAfter at h'
    rw [List.foldlM_append] at h'
    obtain ⟨t, hpre, -⟩ := exists_of_bind_eq_ok h'
    have hfold := (Projection.rowsAfter_concat h).symm.trans hpre
    exact absurd hfold (stuck a _ hb t)

/-- What comes before an event behind a position is before it in the list. -/
theorem mem_of_position_lt {log : EventLog} (n : log.Numbered)
    (hb : log.behind v.query w = pre ++ e :: es) (he' : e' ∈ log.behind v.query w)
    (hlt : e'.position < e.position) : e' ∈ pre := by
  have hasc := n.behind_ascending (q := v.query) (w := w)
  rw [hb] at hasc he'
  rcases List.mem_append.1 he' with hpre | hrest
  · exact hpre
  · rcases List.mem_cons.1 hrest with rfl | hes
    · omega
    · have := (List.pairwise_cons.1 (List.pairwise_append.1 hasc).2.1).1 e' hes
      omega

/-- A view does not end up before the first row has ended. -/
theorem Stuck.position_le_mark (stuck : v.Stuck s) (n : s.log.Numbered)
    (h : v.UpTo s (v.mark s)) (rooted : v.Rooted s.log)
    (hb : s.log.behind v.query 0 = pre ++ e :: es) (hd : ∀ e' ∈ pre, ¬v.projection.Drops e') :
    e.position ≤ v.mark s := by
  by_contra hlt
  have he : e ∈ s.log.behind v.query 0 := by
    rw [hb]
    exact List.mem_append_right _ List.mem_cons_self
  obtain ⟨hmem, hadmits, -⟩ := EventLog.mem_behind_iff.1 he
  have hbehind : e ∈ s.log.behind v.query (v.mark s) :=
    EventLog.mem_behind_iff.2 ⟨hmem, hadmits, by omega⟩
  have hcovered : ∀ e' ∈ s.log.covered v.query (v.mark s), ¬v.projection.Drops e' := by
    intro e' he'
    obtain ⟨hmem', hadmits', hle⟩ := EventLog.mem_covered_iff.1 he'
    refine hd e' (mem_of_position_lt n hb ?_ (by omega))
    exact EventLog.mem_behind_iff.2 ⟨hmem', hadmits', n.position_pos hmem'⟩
  cases hnext : s.log.behind v.query (v.mark s) with
  | nil =>
    rw [hnext] at hbehind
    cases hbehind
  | cons a rest =>
    obtain ⟨t, ht⟩ := rooted.fold n hnext h hcovered
    exact stuck a rest hnext t ht

end stuck

/-! ## A write that comes late -/

/-- How two loops are set up that can overlap: their pages hold `size` events and one more. -/
def lapsing (size : Nat) (first : Bool) : LoopSetup where
  config :=
    { holder := if first then "a" else "b"
      batchSize := size + 1
      one_le_batchSize := Nat.le_add_left 1 size }
  cycle := Duration.ofSecs 1

theorem heartbeat_lapsing (size : Nat) (first : Bool) :
    (lapsing size first).config.heartbeat.nanos = 10000000000 := by
  have h : (Duration.ofSecs 30).third.nanos = 10000000000 := by decide +kernel
  exact h

/-- Two such loops over a finished log, at their start. -/
def lapsingFleet (v : ViewKind) (log : EventLog) : Fleet Bool Stores :=
  (v.fleet (lapsing log.events.length) ⟨0⟩ log.schemas).withLog log

/-- The first loop takes steps, its lease expires, the second loop takes steps, and then the first
one does again. -/
def overtaking (k₁ k₂ k₃ : Nat) : List (Fleet.Act Bool) :=
  List.replicate k₁ (.step true false .pass) ++ [.pass (Duration.ofSecs 31)]
    ++ List.replicate k₂ (.step false false .pass) ++ List.replicate k₃ (.step true false .pass)

theorem quiet_overtaking (k₁ k₂ k₃ : Nat) : ∀ a ∈ overtaking k₁ k₂ k₃, a.Quiet := by
  intro a ha
  simp only [overtaking, List.mem_append, List.mem_replicate, List.mem_singleton] at ha
  rcases ha with ((⟨-, rfl⟩ | rfl) | ⟨-, rfl⟩) | ⟨-, rfl⟩
  · exact rfl
  · trivial
  · exact rfl
  · exact rfl

/-- The instant at which the lease of the first loop has expired. -/
def lapsed : Instant := (⟨0⟩ : Instant).add (Duration.ofSecs 31)

/-- The first loop is about to write what `e` comes to. Nobody else has written so far, and its lease
is live for thirty seconds. -/
structure Poised (v : ViewKind) (log : EventLog) (l : ViewLoop Stores) (s : Shared Stores)
    (e : Event) (es : List Event) : Prop where
  config : l.config = (lapsing log.events.length true).config
  view : l.handler.view = v.view
  log : s.log = log
  upTo : v.UpTo s (v.mark s)
  idle : ¬v.pending s
  lease : s.leases.get? v.view = some ⟨"a", (⟨0⟩ : Instant).deadline (Duration.ofSecs 30)⟩
  writing : ∃ done size f, l.phase = .writing ⟨⟨0⟩, done⟩ e ⟨es, size⟩ f ∧
    size < l.config.batchSize ∧ f.error = none ∧
    ∃ t edit, v.projection.edit t e = .ok edit ∧
      ∀ s₀, v.rows (f.write s₀) = edit.apply (v.rows s₀)

section late

variable {log : EventLog} {pre es : List Event} {e : Event}

/-- The first loop gets to the write of any event before which no row ends. -/
theorem exists_poised (n : log.Numbered) (rooted : v.Rooted log)
    (hb : log.behind v.query 0 = pre ++ e :: es) (hd : ∀ e' ∈ pre, ¬v.projection.Drops e') :
    ∃ l s, ViewLoop.Leads ⟨0⟩ ((v.lapsingFleet log).loops true) (v.lapsingFleet log).shared l s ∧
      v.Poised log l s e es := by
  have hlasts : 0 < ((v.lapsingFleet log).loops true).config.heartbeat.nanos :=
    Nat.lt_of_lt_of_eq (by decide) (heartbeat_lapsing log.events.length true).symm
  obtain ⟨l₁, hlead₁, hconfig₁, -, h₁⟩ := exists_abreast (v := v) ⟨0⟩
    (l := (v.lapsingFleet log).loops true) (s := (v.lapsingFleet log).shared) rfl n ⟨_, rfl⟩
    (upTo_zero n v.rows_empty) nofun rfl (Nat.lt_succ_self _) hlasts
  change v.Abreast _ _ _ (log.behind v.query 0) at h₁
  rw [hb] at h₁
  have hd₀ : ∀ e' ∈ log.covered v.query 0 ++ pre, ¬v.projection.Drops e' := by
    rw [n.covered_zero (Int.le_refl 0)]
    exact hd
  obtain ⟨l, s, hlead, hbeside, h, hcovered⟩ := h₁.reach rooted hd₀
  have hlog : s.log = log := hbeside.log
  obtain ⟨t, hfold⟩ : ∃ t, v.projection.fold (v.rows s.views) e = .ok t := by
    have hrooted : v.Rooted s.log := hlog ▸ rooted
    refine hrooted.fold h.numbered h.behind h.upTo ?_
    rw [hcovered]
    exact hd₀
  obtain ⟨cycle, hh⟩ := h.handler
  obtain ⟨edit, hedit, -⟩ := Projection.fold_eq_ok hfold
  obtain ⟨hok, hwrite⟩ := handler_fold_of_edit hedit
  rw [← hh] at hok hwrite
  obtain ⟨done, size, hwriting, hsize⟩ := h.writing
  have hlease : s.leases.get? v.view
      = some ⟨"a", (⟨0⟩ : Instant).deadline (Duration.ofSecs 30)⟩ := by
    rw [hbeside.leases]
    exact Index.get?_insert_self ..
  have hidle : ¬v.pending s := fun hp => nomatch hbeside.pending.1 hp
  refine ⟨_, s, (hlead₁.trans hlead).trans hwriting, hbeside.config.trans hconfig₁, ?_, hlog,
    h.upTo, hidle, hlease, done, size, _, rfl, hsize, hok, _, edit, hedit, hwrite⟩
  change l.handler.view = v.view
  rw [hh, handler_view]

/-- Then its lease expires, and the second loop folds all that can be folded. -/
theorem Poised.takeover {l : ViewLoop Stores} {s : Shared Stores} (h : v.Poised log l s e es)
    (n : log.Numbered) :
    ∃ l' s', ViewLoop.Leads lapsed ((v.lapsingFleet log).loops false) s l' s' ∧
      l'.phase.inCycle = false ∧ s'.log = log ∧ v.UpTo s' (v.mark s') ∧ v.Stuck s' ∧
      s'.leases.get? v.view = some ⟨"b", lapsed.deadline (Duration.ofSecs 30)⟩ := by
  have hexpired : (Lease.mk "a" ((⟨0⟩ : Instant).deadline (Duration.ofSecs 30))).live lapsed
      = false := by
    decide +kernel
  have hn : s.log.Numbered := h.log ▸ n
  have hlarge : s.log.events.length
      < ((v.lapsingFleet log).loops false).config.batchSize := by
    rw [h.log]
    exact Nat.lt_succ_self _
  have hlasts : 0 < ((v.lapsingFleet log).loops false).config.heartbeat.nanos :=
    Nat.lt_of_lt_of_eq (by decide) (heartbeat_lapsing log.events.length false).symm
  obtain ⟨l₁, hlead₁, -, -, h₁⟩ := exists_abreast (v := v) lapsed
    (l := (v.lapsingFleet log).loops false) (s := s) rfl hn ⟨_, rfl⟩ h.upTo h.idle
    (LeaseTable.renew_expired h.lease hexpired) hlarge hlasts
  obtain ⟨l', s', hlead, hbeside, hout, hup, hstuck⟩ := h₁.finish
  refine ⟨l', s', hlead₁.trans hlead, hout, hbeside.log.trans h.log, hup, hstuck, ?_⟩
  rw [hbeside.leases]
  exact Index.get?_insert_self ..

/-- And then the write of the first loop comes, over whatever rows there are. -/
theorem Poised.late {l : ViewLoop Stores} {s s₀ : Shared Stores} (h : v.Poised log l s₀ e es)
    (lease : s.leases.get? v.view = some ⟨"b", lapsed.deadline (Duration.ofSecs 30)⟩) :
    ∃ l' s', ViewLoop.Leads lapsed l s l' s' ∧ l'.phase.inCycle = false ∧ s'.log = s.log ∧
      v.mark s' = max (v.mark s) e.position ∧
      ∃ t edit, v.projection.edit t e = .ok edit ∧
        v.rows s'.views = edit.apply (v.rows s.views) := by
  obtain ⟨done, size, fold, hwriting, hsize, hok, t, edit, hedit, hwrite⟩ := h.writing
  have hlive : (Lease.mk "b" (lapsed.deadline (Duration.ofSecs 30))).live lapsed = true := by
    decide +kernel
  have hheld : s.leases.renew lapsed l.config.holder l.handler.view l.config.lockWait
      = .error (.lockHeld v.view) := by
    have hother : "b" ≠ "a" := by decide
    rw [h.view, h.config]
    exact LeaseTable.renew_held lease hother hlive
  have hlate : l.config.heartbeat.nanos ≤ lapsed.since ⟨0⟩ := by
    rw [h.config, heartbeat_lapsing]
    decide +kernel
  obtain ⟨l', hout, hlead⟩ := ViewLoop.leads_late hwriting hok hsize hlate hheld
  refine ⟨l', _, hlead, hout, rfl, ?_, t, edit, hedit, hwrite _⟩
  change (s.marks.advance lapsed l.handler.view e.position).current v.view = _
  rw [h.view]
  exact WatermarkTable.current_advance ..

/-- **Late writes.** The write of any event can come late, if no row ends before the event: two loops
end their cycles over the rows of a view that is stuck, but for this write. -/
theorem exists_lapse (n : log.Numbered) (rooted : v.Rooted log)
    (hb : log.behind v.query 0 = pre ++ e :: es) (hd : ∀ e' ∈ pre, ¬v.projection.Drops e') :
    ∃ k₁ k₂ k₃ f, (v.lapsingFleet log).run (overtaking k₁ k₂ k₃) = f ∧
      (∀ i, (f.loops i).phase.inCycle = false) ∧
      ∃ s t edit, s.log = log ∧ v.UpTo s (v.mark s) ∧ v.Stuck s ∧
        v.projection.edit t e = .ok edit ∧
        (v.UpTo f.shared (v.mark f.shared) → edit.apply (v.rows s.views) = v.rows s.views) := by
  obtain ⟨l, s, hlead, h⟩ := exists_poised n rooted hb hd
  obtain ⟨l₂, s₂, hlead₂, hout₂, hlog₂, hup₂, hstuck₂, hlease₂⟩ := h.takeover n
  obtain ⟨l₃, s₃, hlead₃, hout₃, hlog₃, hmark₃, t, edit, hedit, hrows₃⟩ := h.late hlease₂
  -- the three stages, one after the other
  obtain ⟨k₁, hrun₁⟩ := Fleet.exists_run_of_leads (f := v.lapsingFleet log) (i := true) rfl
    rfl rfl hlead
  obtain ⟨k₂, hrun₂⟩ := Fleet.exists_run_of_leads
    (f := ((v.lapsingFleet log).put true l s).act (.pass (Duration.ofSecs 31))) (i := false)
    rfl rfl rfl hlead₂
  obtain ⟨k₃, hrun₃⟩ := Fleet.exists_run_of_leads
    (f := (((v.lapsingFleet log).put true l s).act (.pass (Duration.ofSecs 31))).put false l₂ s₂)
    (i := true) rfl rfl rfl hlead₃
  have hrun : (v.lapsingFleet log).run (List.replicate k₁ (.step true false .pass)
      ++ [.pass (Duration.ofSecs 31)] ++ List.replicate k₂ (.step false false .pass))
        = (((v.lapsingFleet log).put true l s).act (.pass (Duration.ofSecs 31))).put false l₂ s₂ := by
    rw [Fleet.run_append, Fleet.run_append, hrun₁]
    exact hrun₂
  nth_rewrite 1 [← hrun] at hrun₃
  rw [← Fleet.run_append] at hrun₃
  refine ⟨k₁, k₂, k₃, _, hrun₃, ?_, s₂, t, edit, hlog₂, hup₂, hstuck₂, hedit, ?_⟩
  · intro i
    cases i with
    | true => exact hout₃
    | false => exact hout₂
  · intro hup
    have hle : e.position ≤ v.mark s₂ :=
      hstuck₂.position_le_mark (hlog₂ ▸ n) hup₂ (hlog₂ ▸ rooted) (hlog₂ ▸ hb) hd
    have hup₃ : v.UpTo s₃ (v.mark s₃) := hup
    unfold UpTo at hup₃ hup₂
    rw [hmark₃, Int.max_eq_left hle, hlog₃, hrows₃, hup₂] at hup₃
    exact (Except.ok.inj hup₃).symm

/-- If an event ends a row, there is a first one. -/
theorem exists_first_drop (n : log.Numbered) (h : ¬v.Lasting log) :
    ∃ pre e es, log.behind v.query 0 = pre ++ e :: es ∧ v.projection.Drops e ∧
      ∀ e' ∈ pre, ¬v.projection.Drops e' := by
  classical
  unfold Lasting at h
  push Not at h
  obtain ⟨e₀, hmem, hadmits, hdrop⟩ := h
  have he₀ : e₀ ∈ log.behind v.query 0 :=
    EventLog.mem_behind_iff.2 ⟨hmem, hadmits, n.position_pos hmem⟩
  have hsome := (List.find?_isSome (p := fun e => decide (v.projection.Drops e))).2
    ⟨e₀, he₀, decide_eq_true hdrop⟩
  obtain ⟨e, he⟩ := Option.isSome_iff_exists.1 hsome
  obtain ⟨hdrops, pre, es, hb, hpre⟩ := List.find?_eq_some_iff_append.1 he
  refine ⟨pre, e, es, hb, of_decide_eq_true hdrops, fun e' he' hd => ?_⟩
  have := hpre e' he'
  rw [decide_eq_true hd] at this
  cases this

/-- The row that an event ends has been put in before. -/
theorem Rooted.exists_root (rooted : v.Rooted log) (n : log.Numbered) {key : v.Key}
    (hb : log.behind v.query 0 = pre ++ e :: es)
    (hi : v.projection.instruction e = .ok (.drop key)) : ∃ e₀ ∈ pre, v.Roots key e₀ := by
  have he : e ∈ log.behind v.query 0 := by
    rw [hb]
    exact List.mem_append_right _ List.mem_cons_self
  obtain ⟨hmem, hadmits, -⟩ := EventLog.mem_behind_iff.1 he
  obtain ⟨before, after, hlog⟩ := List.append_of_mem hmem
  obtain ⟨i, hi', hroot⟩ := rooted before e after hlog hadmits
  cases hi.symm.trans hi'
  rcases hroot with ⟨-, row, hput, -⟩ | ⟨e₀, he₀, hroot⟩
  · cases hi.symm.trans hput
  · refine ⟨e₀, ?_, hroot⟩
    have hmem₀ : e₀ ∈ log.events := by
      rw [hlog]
      exact List.mem_append_left _ he₀
    refine mem_of_position_lt n hb
      (EventLog.mem_behind_iff.2 ⟨hmem₀, hroot.1, n.position_pos hmem₀⟩) ?_
    have hasc := n.ascending
    rw [hlog] at hasc
    exact (List.pairwise_append.1 hasc).2.2 e₀ he₀ e List.mem_cons_self

/-- **Removals.** If an event ends a row, a late write can leave the rows wrong. -/
theorem exists_not_faithful (n : log.Numbered) (rooted : v.Rooted log) (h : ¬v.Lasting log) :
    ∃ k₁ k₂ k₃, ¬v.Faithful ((v.lapsingFleet log).run (overtaking k₁ k₂ k₃)) := by
  obtain ⟨pre, e, es, hb, ⟨key, hi⟩, hd⟩ := exists_first_drop n h
  obtain ⟨e₀, he₀, -, row, hi₀, rfl⟩ := rooted.exists_root n hb hi
  obtain ⟨k₁, k₂, k₃, f, hrun, hout, s, t, edit, hlog, hup, hstuck, hedit, hlate⟩ :=
    exists_lapse n rooted hb hd
  unfold Projection.edit at hedit
  rw [hi] at hedit
  cases hedit
  cases hheld : (v.rows s.views).get? (Row.key row) with
  | some held =>
    -- the row was put in again, and its end comes late
    refine ⟨k₁, k₂, k₃, fun hf => ?_⟩
    rw [hrun] at hf
    have hdrop : (v.rows s.views).drop (Row.key row) = v.rows s.views := hlate (hf hout)
    rw [← hdrop, Table.drop, Index.get?_erase_self] at hheld
    cases hheld
  | none =>
    -- the row was removed for good, and its start comes late
    obtain ⟨pre₀, mid, rfl⟩ := List.append_of_mem he₀
    rw [List.append_assoc, List.cons_append] at hb
    obtain ⟨k₁, k₂, k₃, f, hrun, hout, s', t, edit, hlog', hup', hstuck', hedit, hlate⟩ :=
      exists_lapse n rooted hb fun e' he' => hd e' (List.mem_append_left _ he')
    unfold Projection.edit at hedit
    rw [hi₀] at hedit
    cases hedit
    refine ⟨k₁, k₂, k₃, fun hf => ?_⟩
    rw [hrun] at hf
    have hput : (v.rows s'.views).put row = v.rows s'.views := hlate (hf hout)
    have hrows : v.rows s.views = v.rows s'.views :=
      hstuck.rows_eq (hlog ▸ n) hup hstuck' hup' (hlog'.trans hlog.symm)
    obtain ⟨r, hr, -⟩ := Table.exists_get?_put (v.rows s'.views) row
    rw [hput, ← hrows, hheld] at hr
    cases hr

end late

/-! ## Exactly the logs without removals -/

/-- **Overlapping cycles.** Two loops with different holders fold a log that commands led to. Their
steps come in any order and time passes in between, so that a lease may expire between the look at it
and the fold. Whenever neither is in a cycle the rows are the fold of the events up to the watermark,
for all such runs, exactly if no event ends a row. And then this also holds of any number of loops,
with commands between their steps. -/
theorem faithful_iff_lasting (v : ViewKind) (schemas : Option SchemaSet) (errands : List Errand) :
    let log := ({ schemas := schemas } : EventLog).after errands
    ((∀ (setup : Bool → LoopSetup) (now : Instant) (leases : LeaseTable)
          (acts : List (Fleet.Act Bool)),
        (setup true).config.holder ≠ (setup false).config.holder → (∀ a ∈ acts, a.Quiet) →
          v.Faithful (((v.fleet setup now schemas leases).withLog log).run acts)) ↔
      v.Lasting log) ∧
    (v.Lasting log →
      ∀ (ι : Type) [DecidableEq ι] (setup : ι → LoopSetup) (now : Instant) (leases : LeaseTable)
          (acts : List (Fleet.Act ι)),
        (∀ a ∈ acts, a.Plain) → ((v.fleet setup now schemas leases).run acts).shared.log = log →
          v.Faithful ((v.fleet setup now schemas leases).run acts)) := by
  intro log
  have h : v.Handled log := (handled_of_events_eq_nil rfl).after errands
  have n : log.Numbered := h.kept.numbered
  refine ⟨⟨fun hall => ?_, fun hd setup now leases acts _ quiet => ?_⟩,
    fun hd ι _ setup now leases acts plain hlog => ?_⟩
  · by_contra hlasting
    obtain ⟨k₁, k₂, k₃, hbad⟩ := exists_not_faithful n h.rooted hlasting
    exact hbad (hall (lapsing log.events.length) ⟨0⟩ Index.empty _
      (show "a" ≠ "b" by decide) (quiet_overtaking k₁ k₂ k₃))
  · have hsteady : (((v.fleet setup now schemas leases).withLog log).Steady v 0) :=
      (Fleet.steady_fleet v setup now schemas leases).grow n List.nil_prefix
    have hlog := Fleet.log_run_of_quiet ((v.fleet setup now schemas leases).withLog log) quiet
    obtain ⟨x, hx⟩ := hsteady.run (fun a ha => (quiet a ha).plain) (hlog ▸ hd)
    exact hx.upTo_mark
  · obtain ⟨x, hx⟩ := (Fleet.steady_fleet v setup now schemas leases).run plain (hlog ▸ hd)
    exact hx.upTo_mark

/-- A policy is added and removed again. The lease of one loop expires before it writes the row,
another loop folds both events, and then the row is written. -/
theorem not_faithful_of_late_put :
    let log := EventLog.fresh.after
      [⟨⟨.lockout (.org "acme"), .add ⟨5, true⟩⟩, "root", ⟨0⟩⟩,
        ⟨⟨.lockout (.org "acme"), .remove⟩, "root", ⟨0⟩⟩]
    let setup (i : Bool) : LoopSetup :=
      { config := { holder := if i then "a" else "b" }, cycle := Duration.ofSecs 1 }
    let acts := overtaking 7 14 4
    let s := (((lockout.fleet setup ⟨0⟩ none).withLog log).run acts).shared
    (setup true).config.holder ≠ (setup false).config.holder ∧ (∀ a ∈ acts, a.Quiet) ∧
      lockout.mark s = 2 ∧ ((lockout.rows s.views).get? "acme").isSome = true ∧
      ¬lockout.Faithful (((lockout.fleet setup ⟨0⟩ none).withLog log).run acts) := by
  intro log setup acts s
  have hout : ∀ i, ((((lockout.fleet setup ⟨0⟩ none).withLog log).run acts).loops i).phase.inCycle
      = false := by
    decide +kernel
  have hrow : lockout.mark s = 2 ∧ ((lockout.rows s.views).get? "acme").isSome = true ∧
      ((lockout.projection.rowsAfter (s.log.covered lockout.query 2)).map
        fun t => (t.get? "acme").isSome) = .ok false := by
    decide +kernel
  obtain ⟨hmark, hheld, hfold⟩ := hrow
  refine ⟨by decide, quiet_overtaking 7 14 4, hmark, hheld, fun hf => ?_⟩
  have hup : lockout.UpTo s (lockout.mark s) := hf hout
  unfold UpTo at hup
  rw [hmark] at hup
  rw [hup] at hfold
  cases hheld.symm.trans (Except.ok.inj hfold)

end ViewKind
end Chronicle
