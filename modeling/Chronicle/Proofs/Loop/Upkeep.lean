import Chronicle.Proofs.Loop.Lapse
import Chronicle.Proofs.View.Held
import Chronicle.Proofs.View.Owners
/-!
# Mail texts are kept up

A fold of a mail text reads the row and writes it in two steps, and a lease may expire between them.
Any number of loops may be between the two, each with a page and a watermark of its own that others
have gone beyond. The rows are the fold of the events up to some position all the same, and this position
only moves up. So no fold fails, no row goes back, and what a row shows is what the aggregate held
when it had come as far as the row.

* `Fleet.Unfailing`: no fold has failed, and `Fleet.Steady.unfailing_act`;
* `Fleet.Steady.exists_get?`: no row goes back;
* `Fleet.exists_log_run`: the log behind a run without faults;
* `EventLog.shown_of_rowsAfter`: what the rows of mail texts show;
* `Fleet.Upkeep`: what is asked of the view of mail texts at any time;
* **`Fleet.upkeep_run`**: loops keep the view up, whatever becomes of their leases.
-/

namespace Chronicle

/-! ## No fold fails -/

/-- A loop that is about to write has just read. -/
theorem Turn.of_writing {σ : Type} {now : Instant} {v : Verdict} {l l' : ViewLoop σ}
    {s s' : Shared σ} {c : Cycle} {e : Event} {p : Page} {fold : Fold σ}
    (ht : Turn now v l s l' s') (h : l'.phase = .writing c e p fold) :
    l.phase = .folding c e p ∧ fold = l.handler.fold s.views e := by
  cases ht with
  | leave config handler out recorded =>
    rw [h] at out
    cases out
  | spoil was failed config handler out =>
    rw [h] at out
    cases out
  | take was next faces =>
    dsimp only at h
    rw [h] at faces
    cases faces
  | keep was faces =>
    dsimp only at h
    rw [h] at faces
    cases faces
  | read was =>
    cases h
    exact ⟨was, rfl⟩
  | _ => cases h

namespace Fleet

variable {ι : Type} {v : ViewKind} {f g : Fleet ι Stores} {x y : Int}

/-- No loop is about to find that its fold has failed. -/
def Unfailing (f : Fleet ι Stores) : Prop :=
  ∀ i c e p fold, (f.loops i).phase = .writing c e p fold → fold.error = none

/-- A loop that is about to read finds what it needs. -/
theorem Steady.exists_edit (h : f.Steady v x) (rooted : v.Rooted f.shared.log)
    (hd : v.Lasting f.shared.log) {m : Int} {e : Event} {es : List Event}
    (hm : m ≤ v.mark f.shared) (hp : e :: es <+: f.shared.log.behind v.query m) :
    ∃ edit, v.projection.edit (v.rows f.shared.views) e = .ok edit := by
  obtain ⟨hmem, hadmits, -⟩ := EventLog.mem_behind_iff.1 (hp.subset List.mem_cons_self)
  rcases h.le_or_next hm hp with hx | ⟨hx, rest, hb⟩
  · obtain ⟨before, after, hlog⟩ := List.append_of_mem hmem
    obtain ⟨i, hi, -⟩ := rooted before e after hlog hadmits
    exact (h.reached_of_le hd hmem hadmits hx).exists_edit hi
  · obtain ⟨t, ht⟩ := rooted.fold h.numbered hb (hx ▸ h.upTo) hd.not_drops
    obtain ⟨edit, hedit, -⟩ := Projection.fold_eq_ok ht
    exact ⟨edit, hedit⟩

/-- **Folds.** Without faults no fold fails, if the rows of the log have roots and none ends. -/
theorem Steady.unfailing_act [DecidableEq ι] (h : f.Steady v x) (rooted : v.Rooted f.shared.log)
    (hd : v.Lasting f.shared.log) (hu : f.Unfailing) {a : Act ι} (ha : a.Plain) :
    (f.act a).Unfailing := by
  cases a with
  | step i stop verdict =>
    intro j c e p fold hj
    by_cases hji : j = i
    · subst hji
      change (Function.update f.loops j _ j).phase = _ at hj
      rw [Function.update_self] at hj
      obtain ⟨was, rfl⟩ := (ViewLoop.step_turn ..).of_writing hj
      have ht := h.trails j
      rw [ViewKind.Trails, was] at ht
      obtain ⟨edit, hedit⟩ := h.exists_edit rooted hd ht.1 ht.2
      obtain ⟨cycle, delay, hh⟩ := h.handler j
      rw [hh]
      exact (ViewKind.handler_fold_of_edit hedit).1
    · change (Function.update f.loops i _ j).phase = _ at hj
      rw [Function.update_of_ne hji] at hj
      exact hu j c e p fold hj
  | command c editor at_ => exact hu
  | pass d => exact hu
  | cut i => exact ha.elim
  | restart i => exact ha.elim
  | append a => exact ha.elim
  | requestReset view => exact ha.elim

/-! ## No row goes back -/

/-- **Rows.** Where rows are up to a position further on, no row has gone back. -/
theorem Steady.exists_get? (h : f.Steady v x) (hg : g.Steady v y) (hxy : x ≤ y)
    (hlog : f.shared.log.events <+: g.shared.log.events) (hd : v.Lasting g.shared.log) {key : v.Key}
    {row : v.Entry} (hrow : (v.rows f.shared.views).get? key = some row) :
    ∃ row', (v.rows g.shared.views).get? key = some row' ∧
      Row.sequence row ≤ Row.sequence row' := by
  have hup : v.projection.rowsAfter (f.shared.log.covered v.query x) = .ok _ := h.upTo
  have hup' : v.projection.rowsAfter (g.shared.log.covered v.query y) = .ok _ := hg.upTo
  have hcov := hg.numbered.covered_eq (q := v.query) hlog h.reached
  obtain ⟨passed, -, hc, -⟩ := hg.numbered.split (q := v.query) hxy
  rw [hc, hcov] at hup'
  unfold Projection.rowsAfter at hup hup'
  rw [List.foldlM_append, hup] at hup'
  refine Projection.exists_get?_foldlM hup' (fun e he => ?_) hrow
  exact hd.not_drops e (hc ▸ List.mem_append_right _ he)

/-! ## Runs -/

/-- Without faults, a log only ever takes in commands. -/
theorem exists_log_run [DecidableEq ι] (f : Fleet ι Stores) {acts : List (Act ι)}
    (plain : ∀ a ∈ acts, a.Plain) :
    ∃ errands, (f.run acts).shared.log = f.shared.log.after errands := by
  induction acts using List.reverseRecOn with
  | nil => exact ⟨[], rfl⟩
  | append_singleton acts a ih =>
    obtain ⟨errands, hlog⟩ := ih fun b hb => plain b (List.mem_append_left _ hb)
    have ha : a.Plain := plain a (List.mem_append_right _ List.mem_cons_self)
    rw [run_concat]
    cases a with
    | step i stop verdict =>
      exact ⟨errands, (((f.run acts).loops i).step_turn (f.run acts).shared).log_eq.trans hlog⟩
    | command c editor at_ =>
      refine ⟨errands ++ [⟨c, editor, at_⟩], ?_⟩
      rw [EventLog.after_concat, ← hlog]
      rfl
    | pass d => exact ⟨errands, hlog⟩
    | cut i => exact ha.elim
    | restart i => exact ha.elim
    | append a => exact ha.elim
    | requestReset view => exact ha.elim

theorem unfailing_run [DecidableEq ι] (v : ViewKind) (setup : ι → LoopSetup) (now : Instant)
    (schemas : Option SchemaSet) (leases : LeaseTable) {acts : List (Act ι)}
    (plain : ∀ a ∈ acts, a.Plain)
    (hd : v.Lasting ((v.fleet setup now schemas leases).run acts).shared.log) :
    ((v.fleet setup now schemas leases).run acts).Unfailing := by
  induction acts using List.reverseRecOn with
  | nil => exact fun i c e p fold hi => nomatch hi
  | append_singleton acts a ih =>
    have hplain : ∀ b ∈ acts, b.Plain := fun b hb => plain b (List.mem_append_left _ hb)
    rw [run_concat] at hd ⊢
    have hd₀ : v.Lasting ((v.fleet setup now schemas leases).run acts).shared.log :=
      fun e he => hd e ((prefix_act_log _ a).subset he)
    obtain ⟨x, h⟩ := (steady_fleet v setup now schemas leases).run hplain hd₀
    obtain ⟨errands, hlog⟩ := exists_log_run (v.fleet setup now schemas leases) hplain
    have rooted : v.Rooted ((v.fleet setup now schemas leases).run acts).shared.log := by
      rw [hlog]
      exact ViewKind.rooted_after v rfl errands
    exact h.unfailing_act rooted hd₀ (ih hplain hd₀)
      (plain a (List.mem_append_right _ List.mem_cons_self))

end Fleet

/-! ## What rows show -/

/-- Every mail text has a place of its own. -/
theorem Slot.eq_mailText_of_place {x : Slot} {iam : String} {key : MailTextKey}
    (h : x.place = (mailText iam key).place) : x = mailText iam key := by
  obtain ⟨iam', key', rfl⟩ := exists_mailText (congrArg Sigma.fst h)
  obtain ⟨rfl, rfl⟩ := Prod.mk.inj (eq_of_heq (Sigma.mk.inj h).2)
  rfl

/-- An event asks something of the row of the slot that it is about. -/
theorem Slot.exists_instruction {x : Slot} {e : Event} (h : x.revision? e ≠ none) :
    ∃ i, x.subject.view.projection.instruction e = .ok i ∧ i.key = x.key := by
  obtain ⟨r, hr⟩ := Option.ne_none_iff_exists'.1 h
  obtain ⟨i, hi, hasks⟩ := exists_asks hr
  refine ⟨i, hi, ?_⟩
  cases r with
  | opened content =>
    rw [show i = _ from hasks]
    exact key_row ..
  | amended change =>
    obtain ⟨missing, revise, rfl, -⟩ := hasks
    rfl
  | closed => rw [show i = _ from hasks]; rfl

namespace EventLog

variable {log : EventLog}

theorem single_mailText (log : EventLog) : log.Single .mailText := by
  intro x y hview hplace _ _
  obtain ⟨iam, key, rfl⟩ := Slot.exists_mailText hview
  exact Slot.eq_mailText_of_place hplace

/-- The rows of mail texts show what the events leave, and there are no other rows. -/
theorem shown_of_rowsAfter (h : log.events = []) (errands : List Errand)
    {t : Table ViewKind.mailText.Key ViewKind.mailText.Entry}
    (ht : ViewKind.mailText.projection.rowsAfter
      ((log.after errands).events.filter ViewKind.mailText.query.admits) = .ok t)
    (iam : String) (key : MailTextKey) :
    (Slot.mailText iam key).Shown (log.after errands).events
      ((Slot.mailText iam key).holds (log.after errands).events) (t.get? (iam, key)) := by
  have single (n : Nat) : (log.after (errands.take n)).Single .mailText := single_mailText _
  obtain ⟨T, hT⟩ := exists_settled_after h single
  have hrows : T .mailText = t := Except.ok.inj (hT.follows.symm.trans ht)
  rw [← entry_after h errands, ← hrows]
  by_cases hheld : (log.after errands).entry (.mailText iam key) = none
  · rw [hheld]
    refine hT.vacant (Slot.mailText iam key).place rfl fun y hy => ?_
    obtain rfl := Slot.eq_mailText_of_place hy
    exact hheld
  · exact hT.shown (.mailText iam key) rfl hheld

/-- An event about a mail text is followed by the view of mail texts. -/
theorem admits_of_about (h : log.events = []) (errands : List Errand) {e : Event}
    (he : e ∈ (log.after errands).events) {iam : String} {key : MailTextKey}
    (hr : (Slot.mailText iam key).revision? e ≠ none) :
    ViewKind.mailText.query.admits e = true := by
  obtain ⟨x, -, -, hother, hadmits⟩ := about_after h errands e he
  have hx : Slot.mailText iam key = x := by
    by_contra hne
    exact hr (hother _ hne)
  exact (hadmits _).2 (hx ▸ rfl)

end EventLog

/-! ## At any time -/

namespace Fleet

variable {ι : Type} {f : Fleet ι Stores} {x : Int}

/-- What is asked of the view of mail texts at any time. -/
structure Upkeep (f : Fleet ι Stores) : Prop where
  unfailing : f.Unfailing
  /-- A row shows what the aggregate of its key holds that has replayed its stream up to the row. -/
  shown : ∀ iam key row, (ViewKind.mailText.rows f.shared.views).get? (iam, key) = some row →
    let es := (f.shared.log.history iamKind iam).filter fun e => decide (e.sequence ≤ row.sequence)
    ∃ a, (Subject.mailText iam key).decider.replay (Subject.mailText iam key).decider.fresh es
        = .ok a ∧
      (Slot.mailText iam key).Shown es ((Slot.mailText iam key).held a.state) (some row)
  /-- An event at or below the watermark is reflected in the row of its key. -/
  reflected : ∀ e ∈ f.shared.log.events, ViewKind.mailText.query.admits e = true →
    e.position ≤ ViewKind.mailText.mark f.shared →
    ∃ iam key row, (Slot.mailText iam key).revision? e ≠ none ∧
      (ViewKind.mailText.rows f.shared.views).get? (iam, key) = some row ∧
      e.sequence ≤ row.sequence
  /-- Once the watermark has passed all events about mail texts, the rows are those of the
  aggregates. -/
  converged : (∀ e ∈ f.shared.log.events, ViewKind.mailText.query.admits e = true →
      e.position ≤ ViewKind.mailText.mark f.shared) →
    ∀ iam key, (Slot.mailText iam key).Shown f.shared.log.events
      (f.shared.log.entry (.mailText iam key))
      ((ViewKind.mailText.rows f.shared.views).get? (iam, key))

variable {log : EventLog} {errands : List Errand}

/-- The rows show what the events leave that they are up to. -/
theorem Steady.shown (h : f.Steady .mailText x) (hnil : log.events = [])
    (hlog : f.shared.log = log.after errands) (iam : String) (key : MailTextKey) :
    let before := (log.after errands).events.filter fun e => decide (e.position ≤ x)
    before <+: (log.after errands).events ∧
      (Slot.mailText iam key).Shown before ((Slot.mailText iam key).holds before)
        ((ViewKind.mailText.rows f.shared.views).get? (iam, key)) := by
  intro before
  have hstart : before <+: (log.after errands).events :=
    ⟨_, EventLog.filter_append_filter (EventLog.kept_after hnil errands).numbered.ascending x⟩
  obtain ⟨errands', hbefore⟩ := EventLog.exists_before_of_prefix hnil hstart
  have hup : ViewKind.mailText.projection.rowsAfter
      (f.shared.log.covered ViewKind.mailText.query x) = .ok _ := h.upTo
  rw [hlog, EventLog.covered, ← List.filter_filter] at hup
  change ViewKind.mailText.projection.rowsAfter (before.filter _) = _ at hup
  refine ⟨hstart, ?_⟩
  rw [← hbefore] at hup ⊢
  exact EventLog.shown_of_rowsAfter hnil errands' hup iam key

theorem Steady.reflected (h : f.Steady .mailText x) (hnil : log.events = [])
    (hlog : f.shared.log = log.after errands) {e : Event} (he : e ∈ f.shared.log.events)
    (hadmits : ViewKind.mailText.query.admits e = true) (hx : e.position ≤ x) :
    ∃ iam key row, (Slot.mailText iam key).revision? e ≠ none ∧
      (ViewKind.mailText.rows f.shared.views).get? (iam, key) = some row ∧
      e.sequence ≤ row.sequence := by
  obtain ⟨y, -, hr, -, hview⟩ := EventLog.about_after hnil errands e (hlog ▸ he)
  obtain ⟨iam, key, rfl⟩ := Slot.exists_mailText ((hview _).1 hadmits).symm
  obtain ⟨i, hi, hkey⟩ : ∃ i : Instruction ViewKind.mailText.Key ViewKind.mailText.Entry,
      ViewKind.mailText.projection.instruction e = .ok i ∧ i.key = (iam, key) :=
    Slot.exists_instruction hr
  obtain ⟨row, hrow, hle⟩ := h.reached_of_le (ViewKind.lasting_mailText _) he hadmits hx i hi
  rw [hkey] at hrow
  exact ⟨iam, key, row, hr, hrow, hle⟩

theorem Steady.upkeep (h : f.Steady .mailText x) (hu : f.Unfailing) (hnil : log.events = [])
    (hlog : f.shared.log = log.after errands) : f.Upkeep := by
  refine ⟨hu, fun iam key row hrow => ?_, fun e he hadmits hmark => ?_, fun hall iam key => ?_⟩
  · obtain ⟨hstart, hshown⟩ := h.shown hnil hlog iam key
    rw [hrow] at hshown
    rw [hlog]
    exact Slot.exists_replay_upTo hnil errands hstart hshown
  · exact h.reflected hnil hlog he hadmits (Int.le_trans hmark h.mark_le)
  · obtain ⟨-, hshown⟩ := h.shown hnil hlog iam key
    have hrest : ∀ e ∈ (log.after errands).events, decide (e.position ≤ x) = false →
        (Slot.mailText iam key).revision? e = none := by
      intro e he hx
      by_contra hr
      have hmark := hall e (hlog ▸ he) (EventLog.admits_of_about hnil errands he hr)
      exact of_decide_eq_false hx (Int.le_trans hmark h.mark_le)
    rw [Slot.holds_filter hrest] at hshown
    rw [hlog, EventLog.entry_after hnil]
    exact (Slot.shown_filter hrest).1 hshown

/-- **Upkeep.** Any number of loops maintain the view of mail texts, over a log that commands write
meanwhile. Their steps come in any order and time passes in between, so that leases expire and are
taken over between any two steps. At all times no fold has failed, every row is what the aggregate of
its key held as of the row, and all events up to the watermark are reflected. And no row goes
back. -/
theorem upkeep_run [DecidableEq ι] (setup : ι → LoopSetup) (now : Instant)
    (schemas : Option SchemaSet) (leases : LeaseTable) (acts more : List (Act ι))
    (plain : ∀ a ∈ acts ++ more, a.Plain) :
    let f := (ViewKind.mailText.fleet setup now schemas leases).run acts
    f.Upkeep ∧ ∀ iam key row, (ViewKind.mailText.rows f.shared.views).get? (iam, key) = some row →
      ∃ row', (ViewKind.mailText.rows (f.run more).shared.views).get? (iam, key) = some row' ∧
        row.sequence ≤ row'.sequence := by
  intro f
  obtain ⟨before, after⟩ := List.forall_mem_append.1 plain
  have hd (log : EventLog) : ViewKind.mailText.Lasting log := ViewKind.lasting_mailText log
  obtain ⟨x, h⟩ := (steady_fleet .mailText setup now schemas leases).run before (hd _)
  obtain ⟨y, hxy, hy⟩ := h.climb after (hd _)
  obtain ⟨errands, hlog⟩ := exists_log_run (ViewKind.mailText.fleet setup now schemas leases) before
  have hu := unfailing_run .mailText setup now schemas leases before (hd _)
  exact ⟨h.upkeep hu rfl hlog, fun iam key row hrow =>
    h.exists_get? hy hxy (prefix_run_log f more) (hd _) hrow⟩

/-- A mail text is added and changed. The lease of one loop expires between its read and its write,
another loop folds both events, and then the write comes. -/
theorem upkeep_run_overtaken :
    let key : MailTextKey := ⟨"welcome", "en"⟩
    let setup (i : Bool) : LoopSetup :=
      { config := { holder := if i then "a" else "b" }, cycle := Duration.ofSecs 1 }
    let acts : List (Act Bool) :=
      [.command ⟨.mailText "acme" key, .add { title := "Hi" }⟩ "root" ⟨0⟩,
        .command ⟨.mailText "acme" key, .change { title := "Hello" }⟩ "root" ⟨1⟩]
        ++ ViewKind.overtaking 7 14 0
    let late : List (Act Bool) := List.replicate 4 (.step true false .pass)
    let f := (ViewKind.mailText.fleet setup ⟨0⟩ none).run acts
    (∀ a ∈ acts ++ late, a.Plain) ∧ f.Upkeep ∧ ViewKind.mailText.mark f.shared = 2 ∧
      ∃ row, (ViewKind.mailText.rows (f.run late).shared.views).get? ("acme", key) = some row ∧
        2 ≤ row.sequence := by
  intro key setup acts late f
  have plain : ∀ a ∈ acts ++ late, a.Plain := by
    intro a ha
    simp only [acts, late, List.append_assoc, List.mem_append, List.mem_cons, List.mem_replicate,
      List.not_mem_nil, or_false] at ha
    rcases ha with (rfl | rfl) | hquiet | ⟨-, rfl⟩
    · trivial
    · trivial
    · exact (ViewKind.quiet_overtaking 7 14 0 a hquiet).plain
    · exact rfl
  obtain ⟨upkeep, grows⟩ := upkeep_run setup ⟨0⟩ none Index.empty acts late plain
  have hrun : ViewKind.mailText.mark f.shared = 2 ∧
      ((ViewKind.mailText.rows f.shared.views).get? ("acme", key)).map Row.sequence = some 2 := by
    decide +kernel
  obtain ⟨hmark, hheld⟩ := hrun
  obtain ⟨row, hrow, hseq⟩ := Option.map_eq_some_iff.1 hheld
  obtain ⟨row', hrow', hle⟩ := grows "acme" key row hrow
  exact ⟨plain, upkeep, hmark, row', hrow', hseq ▸ hle⟩

end Fleet
end Chronicle
