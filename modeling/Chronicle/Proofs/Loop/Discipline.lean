import Chronicle.Proofs.Loop.Stroke
/-!
# The lease over a cycle

A cycle may fold only while its lease is fresh: right behind a renewal, or within a third of the
lease from the last one. Once a renewal has failed, the cycle makes no further call, and it ends
with what it has recorded.

One loop is followed through its cycles, and the strokes of the cycle that it is in are written down
beside it. Before each of its steps everything that loops share may have changed in any way, so that
nothing is assumed about the leases, the log, the watermarks, the views and the other loops, nor
about the time that a call takes.

* `Account`, **`Account.run`**: a loop with the strokes of its cycle;
* `Fresh`, `Admits`, `Orderly`: what must stand before a stroke;
* `Closes`: what a cycle comes to;
* `Account.Stands`, `Account.stands_step`, `Account.stands_run`: the invariant, by the phase of the
  loop;
* `Account.Disciplined`, **`Account.disciplined_run`**: the discipline of every cycle.
-/

namespace Chronicle

/-! ## The account of a cycle -/

/-- A loop with the strokes of its cycle and the outcome that the cycle has had. -/
structure Account (σ : Type) where
  loop : ViewLoop σ
  done : List Stroke := []
  outcome : Option Outcome := none

namespace Account

variable {σ : Type}

/-- The account with further strokes, behind which the loop stands at `l`. -/
def note (a : Account σ) (strokes : List Stroke) (l : ViewLoop σ) : Account σ where
  loop := l
  done := a.done ++ strokes
  outcome := l.phase.outcome?.or a.outcome

/-- The account after a step. A new account is opened when the loop leaves for another cycle. -/
def step (a : Account σ) (m : Moment σ) : Account σ :=
  match a.loop.phase with
  | .ready => { loop := (a.loop.stepAt m).loop }
  | _ => a.note (a.loop.strokes m) (a.loop.stepAt m).loop

/-- The account after a list of moments. -/
def run (a : Account σ) (moments : List (Moment σ)) : Account σ :=
  moments.foldl step a

/-- A loop that has not started, whatever it remembers. -/
def start (l : ViewLoop σ) : Account σ where
  loop := { l with phase := .ready }

end Account

/-! ## What must stand before a stroke -/

/-- A fold may begin: the lease has just been renewed, or it was renewed less than a third of it
ago. -/
def Fresh (wait : Duration) (pre : List Stroke) (at_ : Instant) : Prop :=
  pre.getLast? = some (.renewed at_)
    ∨ ∃ t, lastRenewal pre = some t ∧ at_.since t < wait.nanos / 3

/-- A stroke may follow directly on the strokes `pre`. -/
def Stroke.Follows (wait : Duration) (pre : List Stroke) : Stroke → Prop
  | begun at_ _ => Fresh wait pre at_
  | read e => ∃ at_, pre.getLast? = some (.begun at_ e)
  | folded e => pre.getLast? = some (.read e)
  | recorded p => ∃ e, pre.getLast? = some (.folded e) ∧ p = e.position
  | _ => True

/-- The strokes `pre` of a cycle may be followed by another one. -/
structure Admits (wait : Duration) (pre : List Stroke) (x : Stroke) : Prop where
  /-- Nothing has failed. -/
  smooth : ∀ y ∈ pre, y.isFailure = false
  /-- The first stroke is a renewal. -/
  first : pre = [] → x.isRenewal = true
  follows : x.Follows wait pre

/-- Every stroke may follow on those before it. -/
def Orderly (wait : Duration) (done : List Stroke) : Prop :=
  ∀ pre x post, done = pre ++ x :: post → Admits wait pre x

theorem orderly_nil (wait : Duration) : Orderly wait [] := by
  intro pre x post h
  cases pre <;> cases h

theorem orderly_singleton {wait : Duration} {x : Stroke} (first : x.isRenewal = true)
    (follows : x.Follows wait []) : Orderly wait [x] := by
  intro pre y post heq
  cases pre with
  | nil =>
    cases heq
    exact ⟨nofun, fun _ => first, follows⟩
  | cons z pre =>
    cases pre <;> cases heq

theorem Orderly.concat {wait : Duration} {done : List Stroke} {x : Stroke}
    (h : Orderly wait done) (hx : Admits wait done x) : Orderly wait (done ++ [x]) := by
  intro pre y post heq
  rcases split_of_concat heq with ⟨rfl, rfl, rfl⟩ | ⟨rest, -, hdone⟩
  · exact hx
  · exact h pre y rest hdone

/-- What a cycle comes to, told from its strokes. -/
inductive Closes : List Stroke → Outcome → Prop where
  /-- The lease is held elsewhere, and nothing else was done. -/
  | standby {view : String} {err : Error} (held : err.isLockHeld = true) :
      Closes [.failed (.renew view) err] .lockHeld
  /-- A call has failed. The loop stands behind the last event that the cycle has recorded, or
  at the watermark that it has read. -/
  | halt {pre : List Stroke} {c : Call} {err : Error} {mark : Int}
      (first : pre = [] → err.isLockHeld = false)
      (reached : ∀ m, startingMark pre = some m → mark = (recordings pre).getLastD m) :
      Closes (pre ++ [.failed c err]) (.halted (recordings pre).length mark err)
  /-- Everything is folded, or the loop is told to stop. -/
  | caughtUp {done : List Stroke} {m : Int} (smooth : ∀ x ∈ done, x.isFailure = false)
      (located : startingMark done = some m) :
      Closes done (.caughtUp (recordings done).length ((recordings done).getLastD m))

/-- What a cycle comes to whose last call has failed. -/
theorem Closes.of_failed {pre : List Stroke} {c : Call} {err : Error} {o : Outcome}
    (h : Closes (pre ++ [.failed c err]) o) :
    pre = [] ∧ err.isLockHeld = true ∧ o = .lockHeld
      ∨ ∃ mark, (pre = [] → err.isLockHeld = false)
          ∧ o = .halted (recordings pre).length mark err
          ∧ ∀ m, startingMark pre = some m → mark = (recordings pre).getLastD m := by
  generalize hdone : pre ++ [.failed c err] = done at h
  cases h with
  | standby held =>
    obtain ⟨hnil, hlast⟩ := List.append_inj' (hdone.trans (List.nil_append _).symm) rfl
    cases hlast
    exact .inl ⟨hnil, held, rfl⟩
  | @halt pre' c' err' mark first reached =>
    obtain ⟨rfl, hlast⟩ := List.append_inj' hdone rfl
    cases hlast
    exact .inr ⟨mark, first, rfl, reached⟩
  | caughtUp smooth located =>
    cases smooth _ (hdone ▸ List.mem_concat_self)

/-- A cycle that stands by. -/
theorem Closes.of_lockHeld {done : List Stroke} (h : Closes done .lockHeld) :
    ∃ view err, done = [.failed (.renew view) err] ∧ err.isLockHeld = true := by
  cases h with
  | @standby view err held => exact ⟨view, err, rfl, held⟩

/-! ## What a cycle keeps -/

namespace Account

variable {σ : Type} {a : Account σ} {m : Moment σ} {c c' : Cycle} {x : Stroke} {l : ViewLoop σ}

/-- The cycle goes on, and knows when it renewed its lease and how many positions it recorded. -/
structure Open (a : Account σ) (c : Cycle) : Prop where
  orderly : Orderly a.loop.config.lockWait a.done
  smooth : ∀ x ∈ a.done, x.isFailure = false
  renewed : lastRenewal a.done = some c.renewedAt
  processed : (recordings a.done).length = c.processed
  pending : a.outcome = none

/-- The cycle has not read the watermark yet. -/
structure Unplaced (a : Account σ) : Prop where
  unread : startingMark a.done = none
  unrecorded : recordings a.done = []

/-- The loop stands behind the last event that the cycle has recorded, or at the watermark that it
has read. -/
def Placed (a : Account σ) : Prop :=
  ∃ mark, startingMark a.done = some mark ∧ a.loop.mark = (recordings a.done).getLastD mark

/-- The cycle is over, or the loop was cut off in it. -/
structure Shut (a : Account σ) : Prop where
  orderly : Orderly a.loop.config.lockWait a.done
  closes : ∀ o, a.outcome = some o → Closes a.done o
  settled : ∀ c err, .failed c err ∈ a.done → a.outcome ≠ none

/-- What is known of an account, by the phase of its loop. -/
def Stands (a : Account σ) : Prop :=
  match a.loop.phase with
  | .acquiring => a.done = [] ∧ a.outcome = none
  | .checkingReset c => a.Open c ∧ a.Unplaced
  | .clearing c => a.Open c ∧ a.Unplaced
  | .dropping c => a.Open c ∧ a.Unplaced
  | .locating c => a.Open c ∧ a.Unplaced
  | .paging c => a.Open c ∧ a.Placed
  | .between c _ => a.Open c ∧ a.Placed
  | .renewing c _ _ => a.Open c ∧ a.Placed
  | .waiting _ c e _ => a.Open c ∧ a.Placed ∧ ∃ at_, a.done.getLast? = some (.begun at_ e)
  | .folding c e _ => a.Open c ∧ a.Placed ∧ ∃ at_, a.done.getLast? = some (.begun at_ e)
  | .writing c e _ _ => a.Open c ∧ a.Placed ∧ a.done.getLast? = some (.read e)
  | .recording c e _ => a.Open c ∧ a.Placed ∧ a.done.getLast? = some (.folded e)
  | _ => a.Shut

theorem step_of_ne_ready (h : a.loop.phase ≠ .ready) :
    a.step m = a.note (a.loop.strokes m) (a.loop.stepAt m).loop := by
  unfold step
  split
  · exact absurd ‹_› h
  · rfl

theorem note_nil (h : l.phase.outcome? = none) :
    a.note [] l = { a with loop := l } := by
  unfold note
  rw [h, List.append_nil]
  rfl

theorem note_note (xs ys : List Stroke) (l' : ViewLoop σ) (h : l.phase.outcome? = none) :
    (a.note xs l).note ys l' = a.note (xs ++ ys) l' := by
  unfold note
  rw [h, List.append_assoc]
  rfl

/-! ### A cycle that goes on -/

theorem Open.done_ne_nil (h : a.Open c) : a.done ≠ [] := by
  intro hnil
  have hrenewed := h.renewed
  rw [hnil] at hrenewed
  cases hrenewed

theorem Open.admits (h : a.Open c) (hx : x.Follows a.loop.config.lockWait a.done) :
    Admits a.loop.config.lockWait a.done x :=
  ⟨h.smooth, fun hnil => absurd hnil h.done_ne_nil, hx⟩

/-- A cycle that goes on after a stroke. -/
theorem Open.note (h : a.Open c) (hx : x.Follows a.loop.config.lockWait a.done)
    (smooth : x.isFailure = false) (config : l.config = a.loop.config)
    (going : l.phase.outcome? = none)
    (renewed : x.renewed?.getD c.renewedAt = c'.renewedAt)
    (processed : c.processed + x.recorded?.toList.length = c'.processed) :
    (a.note [x] l).Open c' where
  orderly := by
    change Orderly l.config.lockWait (a.done ++ [x])
    rw [config]
    exact h.orderly.concat (h.admits hx)
  smooth := by
    intro y hy
    rcases List.mem_append.1 hy with hy | hy
    · exact h.smooth y hy
    · rw [List.mem_singleton.1 hy]
      exact smooth
  renewed := by
    change lastRenewal (a.done ++ [x]) = _
    rw [lastRenewal_concat, h.renewed, ← renewed]
    cases x.renewed? <;> rfl
  processed := by
    change (recordings (a.done ++ [x])).length = _
    rw [recordings_concat, List.length_append, h.processed, processed]
  pending := by
    change l.phase.outcome?.or a.outcome = none
    rw [going, h.pending]
    rfl

theorem Open.keep (h : a.Open c) (config : l.config = a.loop.config) :
    ({ a with loop := l } : Account σ).Open c where
  orderly := by
    change Orderly l.config.lockWait a.done
    rw [config]
    exact h.orderly
  smooth := h.smooth
  renewed := h.renewed
  processed := h.processed
  pending := h.pending

theorem Unplaced.note (h : a.Unplaced) (located : x.located? = none)
    (recorded : x.recorded? = none) : (a.note [x] l).Unplaced where
  unread := by
    change startingMark (a.done ++ [x]) = none
    rw [startingMark_concat, located, h.unread]
    rfl
  unrecorded := by
    change recordings (a.done ++ [x]) = []
    rw [recordings_concat, recorded, h.unrecorded]
    rfl

theorem Placed.note (h : a.Placed) (located : x.located? = none)
    (mark : l.mark = x.recorded?.getD a.loop.mark) : (a.note [x] l).Placed := by
  obtain ⟨start, hstart, hmark⟩ := h
  refine ⟨start, ?_, ?_⟩
  · change startingMark (a.done ++ [x]) = some start
    rw [startingMark_concat, located, hstart]
    rfl
  · change l.mark = (recordings (a.done ++ [x])).getLastD start
    rw [mark, recordings_concat, hmark]
    cases x.recorded? <;> simp

/-- The mark of the loop, if the cycle has read the watermark. -/
theorem Placed.mark_eq (h : a.Placed) (start : Int) (hs : startingMark a.done = some start) :
    a.loop.mark = (recordings a.done).getLastD start := by
  obtain ⟨start', hs', hmark⟩ := h
  rw [hs] at hs'
  cases hs'
  exact hmark

/-! ### The end of a cycle -/

/-- A loop that is cut off in a call. -/
theorem Open.shut_lost (h : a.Open c) (call : Call) :
    (a.note [.lost call] { a.loop with phase := .crashed }).Shut where
  orderly := h.orderly.concat (h.admits trivial)
  closes := by
    intro o ho
    change a.outcome = some o at ho
    rw [h.pending] at ho
    cases ho
  settled := by
    intro d err hmem
    rcases List.mem_append.1 hmem with hmem | hmem
    · cases h.smooth _ hmem
    · cases List.mem_singleton.1 hmem

/-- A call that fails ends the cycle. -/
theorem Open.shut_failed (h : a.Open c) (call : Call) (err : Error) {n : Nat}
    (count : n = (recordings a.done).length)
    (reached : ∀ start, startingMark a.done = some start →
      a.loop.mark = (recordings a.done).getLastD start) :
    (a.note [.failed call err]
      { a.loop with phase := .ended (.halted n a.loop.mark err) }).Shut where
  orderly := h.orderly.concat (h.admits trivial)
  closes := by
    intro o ho
    cases ho
    rw [count]
    exact .halt (fun hnil => absurd hnil h.done_ne_nil) reached
  settled := fun _ _ _ => nofun

/-- A cycle that comes to its end without a failure. -/
theorem Open.shut_finished (h : a.Open c) (hp : a.Placed) :
    (a.note [] { a.loop with phase := .ended (.caughtUp c.processed a.loop.mark) }).Shut where
  orderly := by
    change Orderly a.loop.config.lockWait (a.done ++ [])
    rw [List.append_nil]
    exact h.orderly
  closes := by
    intro o ho
    cases ho
    obtain ⟨start, hstart, hmark⟩ := hp
    change Closes (a.done ++ []) _
    rw [List.append_nil, hmark, ← h.processed]
    exact .caughtUp h.smooth hstart
  settled := fun _ _ _ => nofun

/-- A step of a cycle that makes a call: the cycle goes on only if the call succeeds. -/
theorem Open.stands_call {α : Type} (call : Call) (result : Except Error α) (good : List Stroke)
    (next : α → ViewLoop σ) {n : Nat} (h : a.Open c) (count : n = (recordings a.done).length)
    (reached : ∀ start, startingMark a.done = some start →
      a.loop.mark = (recordings a.done).getLastD start)
    (going : a.loop.phase ≠ .ready)
    (hstep : (a.loop.stepAt m).loop =
      match m.verdict.run result with
      | none => { a.loop with phase := .crashed }
      | some (.error err) => { a.loop with phase := .ended (.halted n a.loop.mark err) }
      | some (.ok x) => next x)
    (hstrokes : a.loop.strokes m = m.verdict.strokes call result good)
    (ok : ∀ x, result = .ok x → (a.note good (next x)).Stands) : (a.step m).Stands := by
  rw [step_of_ne_ready going, hstep, hstrokes]
  unfold Verdict.strokes
  rcases hv : m.verdict.run result with _ | err | x
  · exact h.shut_lost call
  · exact h.shut_failed call err count reached
  · exact ok x (Verdict.eq_ok_of_run_eq_ok hv)

/-- Such a step before the cycle has read the watermark. -/
theorem Open.stands_call_unplaced {α : Type} (call : Call) (x : α) (good : List Stroke)
    (next : α → ViewLoop σ) (h : a.Open c) (hu : a.Unplaced) (going : a.loop.phase ≠ .ready)
    (hstep : (a.loop.stepAt m).loop =
      match m.verdict.run (.ok x) with
      | none => { a.loop with phase := .crashed }
      | some (.error err) => { a.loop with phase := .ended (.halted 0 a.loop.mark err) }
      | some (.ok x) => next x)
    (hstrokes : a.loop.strokes m = m.verdict.strokes call (.ok x) good)
    (ok : (a.note good (next x)).Stands) : (a.step m).Stands := by
  refine h.stands_call call (.ok x) good next ?_ ?_ going hstep hstrokes ?_
  · rw [hu.unrecorded]
    rfl
  · rw [hu.unread]
    exact nofun
  · rintro _ ⟨⟩
    exact ok

/-- Such a step behind the reading of the watermark. -/
theorem Open.stands_call_placed {α : Type} (call : Call) (result : Except Error α)
    (good : List Stroke) (next : α → ViewLoop σ) (h : a.Open c) (hp : a.Placed)
    (going : a.loop.phase ≠ .ready)
    (hstep : (a.loop.stepAt m).loop =
      match m.verdict.run result with
      | none => { a.loop with phase := .crashed }
      | some (.error err) => { a.loop with phase := .ended (.halted c.processed a.loop.mark err) }
      | some (.ok x) => next x)
    (hstrokes : a.loop.strokes m = m.verdict.strokes call result good)
    (ok : ∀ x, (a.note good (next x)).Stands) : (a.step m).Stands :=
  h.stands_call call result good next h.processed.symm hp.mark_eq going hstep hstrokes
    fun x _ => ok x

/-! ### Phase by phase -/

/-- The question whether the view is to be built again. -/
theorem stands_checkingReset (hp : a.loop.phase = .checkingReset c) (h : a.Open c)
    (hu : a.Unplaced) : (a.step m).Stands := by
  refine h.stands_call_unplaced (.mark .resetRequested)
    (m.shared.marks.resetRequested a.loop.handler.view) [.asked]
    (fun requested => { a.loop with phase := if requested then .clearing c else .locating c })
    hu (by rw [hp]; nofun) ?_ (by unfold ViewLoop.strokes; rw [hp]) ?_
  · unfold ViewLoop.stepAt ViewLoop.step
    rw [hp]
    dsimp only
    rcases m.verdict.run _ with _ | _ | _ | _ <;> rfl
  · cases m.shared.marks.resetRequested a.loop.handler.view with
    | true => exact And.intro (h.note trivial rfl rfl rfl rfl rfl) (hu.note rfl rfl)
    | false => exact And.intro (h.note trivial rfl rfl rfl rfl rfl) (hu.note rfl rfl)

/-- The clearing of the view. -/
theorem stands_clearing (hp : a.loop.phase = .clearing c) (h : a.Open c) (hu : a.Unplaced) :
    (a.step m).Stands := by
  refine h.stands_call_unplaced (.clear a.loop.handler.view)
    (a.loop.handler.clear m.shared.views) [.cleared] (fun _ => { a.loop with phase := .dropping c })
    hu (by rw [hp]; nofun) ?_ (by unfold ViewLoop.strokes; rw [hp]) ?_
  · unfold ViewLoop.stepAt ViewLoop.step
    rw [hp]
    dsimp only
    rcases m.verdict.run _ with _ | _ | _ <;> rfl
  · exact And.intro (h.note trivial rfl rfl rfl rfl rfl) (hu.note rfl rfl)

/-- The dropping of the watermark. -/
theorem stands_dropping (hp : a.loop.phase = .dropping c) (h : a.Open c) (hu : a.Unplaced) :
    (a.step m).Stands := by
  refine h.stands_call_unplaced (.mark .drop) (m.shared.marks.drop a.loop.handler.view) [.dropped]
    (fun _ => { a.loop with mark := 0, phase := .locating c })
    hu (by rw [hp]; nofun) ?_ (by unfold ViewLoop.strokes; rw [hp]) ?_
  · unfold ViewLoop.stepAt ViewLoop.step
    rw [hp]
    dsimp only
    rcases m.verdict.run _ with _ | _ | _ <;> rfl
  · exact And.intro (h.note trivial rfl rfl rfl rfl rfl) (hu.note rfl rfl)

/-- The reading of the watermark, which places the loop. -/
theorem stands_locating (hp : a.loop.phase = .locating c) (h : a.Open c) (hu : a.Unplaced) :
    (a.step m).Stands := by
  refine h.stands_call_unplaced (.mark .current) (m.shared.marks.current a.loop.handler.view)
    [.located (m.shared.marks.current a.loop.handler.view)]
    (fun mark => { a.loop with mark := mark, phase := .paging c })
    hu (by rw [hp]; nofun) ?_ (by unfold ViewLoop.strokes; rw [hp]) ?_
  · unfold ViewLoop.stepAt ViewLoop.step
    rw [hp]
    dsimp only
    rcases m.verdict.run _ with _ | _ | _ <;> rfl
  · refine And.intro (h.note trivial rfl rfl rfl rfl rfl) ⟨_, startingMark_concat .., ?_⟩
    change _ = (recordings (a.done ++ [_])).getLastD _
    rw [recordings_concat, hu.unrecorded]
    rfl

/-- The reading of a page. A loop that is told to stop reads none. -/
theorem stands_paging (hp : a.loop.phase = .paging c) (h : a.Open c) (hm : a.Placed) :
    (a.step m).Stands := by
  cases hstop : m.stop with
  | true =>
    rw [step_of_ne_ready (by rw [hp]; nofun)]
    unfold ViewLoop.strokes ViewLoop.stepAt ViewLoop.step
    rw [hp, hstop]
    exact h.shut_finished hm
  | false =>
    refine h.stands_call_placed .query (.ok (m.shared.log.query a.loop.pageFilter)) [.paged]
      (fun events => { a.loop with phase := .between c ⟨events, events.length⟩ })
      hm (by rw [hp]; nofun) ?_ (by unfold ViewLoop.strokes; rw [hp, hstop]; rfl) fun events => ?_
    · unfold ViewLoop.stepAt ViewLoop.step
      rw [hp, hstop]
      dsimp only
      rcases m.verdict.run _ with _ | _ | _ <;> rfl
    · exact And.intro (h.note trivial rfl rfl rfl rfl rfl) (hm.note rfl rfl)

/-- The hand-over of an event, whether or not the fold is put off. -/
theorem stands_begun {e : Event} {p : Page} (h : a.Open c) (hm : a.Placed)
    (fresh : Fresh a.loop.config.lockWait a.done m.now) :
    (a.note [.begun m.now e] { a.loop with phase := a.loop.foldPhase m.now c e p }).Stands := by
  have hlast : (a.done ++ [Stroke.begun m.now e]).getLast? = some (.begun m.now e) :=
    List.getLast?_concat ..
  unfold ViewLoop.foldPhase
  split
  · exact And.intro (h.note fresh rfl rfl rfl rfl rfl) ⟨hm.note rfl rfl, m.now, hlast⟩
  · exact And.intro (h.note fresh rfl rfl rfl rfl rfl) ⟨hm.note rfl rfl, m.now, hlast⟩

/-- Between two events: the cycle ends, reads another page, renews its lease or hands over the next
event, which it does only while the lease is fresh. -/
theorem stands_between {p : Page} (hp : a.loop.phase = .between c p) (h : a.Open c)
    (hm : a.Placed) : (a.step m).Stands := by
  rw [step_of_ne_ready (by rw [hp]; nofun)]
  unfold ViewLoop.strokes ViewLoop.stepAt ViewLoop.step
  rw [hp]
  dsimp only
  unfold ViewLoop.turn
  split
  · split
    · exact h.shut_finished hm
    · change (a.note [] { a.loop with phase := .paging c }).Stands
      rw [note_nil rfl]
      exact And.intro (h.keep rfl) hm
  · rename_i e rest _
    dsimp only
    split
    · change (a.note [] { a.loop with phase := .renewing c e ⟨rest, p.size⟩ }).Stands
      rw [note_nil rfl]
      exact And.intro (h.keep rfl) hm
    · rename_i hearly
      change (a.note (List.map _ (ViewLoop.foldPhase ..).inHand?.toList) _).Stands
      rw [ViewLoop.inHand?_foldPhase]
      exact stands_begun h hm (.inr ⟨c.renewedAt, h.renewed, Nat.lt_of_not_le hearly⟩)

/-- The renewal before an event, which is handed over right behind it. -/
theorem stands_renewing {e : Event} {p : Page} (hp : a.loop.phase = .renewing c e p)
    (h : a.Open c) (hm : a.Placed) : (a.step m).Stands := by
  have hnow : a.loop.phase.outcome? = none := by
    rw [hp]
    rfl
  refine h.stands_call_placed (.renew a.loop.handler.view)
    (m.shared.leases.renew m.now a.loop.config.holder a.loop.handler.view a.loop.config.lockWait)
    [.renewed m.now, .begun m.now e]
    (fun _ => { a.loop with phase := a.loop.foldPhase m.now { c with renewedAt := m.now } e p })
    hm (by rw [hp]; nofun) ?_ ?_ fun _ => ?_
  · unfold ViewLoop.stepAt ViewLoop.step
    rw [hp]
    dsimp only
    rcases m.verdict.run _ with _ | _ | _ <;> rfl
  · unfold ViewLoop.strokes ViewLoop.stepAt ViewLoop.step Verdict.strokes
    rw [hp]
    dsimp only
    rcases m.verdict.run _ with _ | _ | _
    · rfl
    · rfl
    · change Stroke.renewed m.now :: List.map _ (ViewLoop.foldPhase ..).inHand?.toList = _
      rw [ViewLoop.inHand?_foldPhase]
      rfl
  · change (a.note ([.renewed m.now] ++ [.begun m.now e]) _).Stands
    rw [← note_note _ _ _ hnow]
    exact stands_begun (a := a.note [.renewed m.now] a.loop)
      (h.note trivial rfl rfl hnow rfl rfl) (hm.note rfl rfl) (.inl (List.getLast?_concat ..))

/-- The read of a fold. -/
theorem stands_folding {e : Event} {p : Page} (hp : a.loop.phase = .folding c e p)
    (h : a.Open c) (hm : a.Placed) (hlast : ∃ at_, a.done.getLast? = some (.begun at_ e)) :
    (a.step m).Stands := by
  refine h.stands_call_placed (.process a.loop.handler.view)
    (.ok (a.loop.handler.fold m.shared.views e)) [.read e]
    (fun f => { a.loop with phase := .writing c e p f })
    hm (by rw [hp]; nofun) ?_ (by unfold ViewLoop.strokes; rw [hp]) fun _ => ?_
  · unfold ViewLoop.stepAt ViewLoop.step
    rw [hp]
    dsimp only
    rcases m.verdict.run _ with _ | _ | _ <;> rfl
  · exact And.intro (h.note hlast rfl rfl rfl rfl rfl)
      (And.intro (hm.note rfl rfl) (List.getLast?_concat ..))

/-- The write of a fold. -/
theorem stands_writing {e : Event} {p : Page} {f : Fold σ} (hp : a.loop.phase = .writing c e p f)
    (h : a.Open c) (hm : a.Placed) (hlast : a.done.getLast? = some (.read e)) :
    (a.step m).Stands := by
  rw [step_of_ne_ready (by rw [hp]; nofun)]
  unfold ViewLoop.strokes ViewLoop.stepAt ViewLoop.step
  rw [hp]
  dsimp only
  cases f.error with
  | some err => exact h.shut_failed _ err h.processed.symm hm.mark_eq
  | none =>
    exact And.intro (h.note hlast rfl rfl rfl rfl rfl)
      (And.intro (hm.note rfl rfl) (List.getLast?_concat ..))

/-- The recording of an event, which moves the loop behind it. -/
theorem stands_recording {e : Event} {p : Page} (hp : a.loop.phase = .recording c e p)
    (h : a.Open c) (hm : a.Placed) (hlast : a.done.getLast? = some (.folded e)) :
    (a.step m).Stands := by
  refine h.stands_call_placed (.mark .advance)
    (.ok (m.shared.marks.advance m.now a.loop.handler.view e.position)) [.recorded e.position]
    (fun _ => { a.loop with
      mark := e.position, phase := .between { c with processed := c.processed + 1 } p })
    hm (by rw [hp]; nofun) ?_ (by unfold ViewLoop.strokes; rw [hp]) fun _ => ?_
  · unfold ViewLoop.stepAt ViewLoop.step
    rw [hp]
    dsimp only
    rcases m.verdict.run _ with _ | _ | _ <;> rfl
  · exact And.intro (h.note ⟨e, hlast, rfl⟩ rfl rfl rfl rfl rfl) (hm.note rfl rfl)

/-- The renewal that opens a cycle. -/
theorem stands_acquiring (hp : a.loop.phase = .acquiring) (hdone : a.done = [])
    (hout : a.outcome = none) : (a.step m).Stands := by
  have hnote (xs : List Stroke) (l : ViewLoop σ) :
      a.note xs l = ⟨l, xs, l.phase.outcome?.or none⟩ := by
    unfold note
    rw [hdone, hout]
    rfl
  rw [step_of_ne_ready (by rw [hp]; nofun), hnote]
  unfold ViewLoop.strokes ViewLoop.stepAt ViewLoop.step
  rw [hp]
  dsimp only
  unfold ViewLoop.acquire Verdict.strokes
  rcases m.verdict.run _ with _ | err | leases
  · exact Shut.mk (orderly_singleton rfl trivial) nofun fun _ _ hmem => nomatch hmem
  · have hfailed : Orderly a.loop.config.lockWait [.failed (.renew a.loop.handler.view) err] :=
      orderly_singleton rfl trivial
    cases err with
    | lockHeld view =>
      refine Shut.mk hfailed ?_ fun _ _ _ => nofun
      rintro _ ⟨⟩
      exact .standby rfl
    | _ =>
      refine Shut.mk hfailed ?_ fun _ _ _ => nofun
      rintro _ ⟨⟩
      exact @Closes.halt [] _ _ _ (fun _ => rfl) nofun
  · exact And.intro
      { orderly := orderly_singleton rfl trivial
        smooth := fun x hx => by rw [List.mem_singleton.1 hx]; rfl
        renewed := rfl
        processed := rfl
        pending := rfl }
      ⟨rfl, rfl⟩

/-- The wait of a slow fold. -/
theorem stands_waiting {e : Event} {p : Page} {wake : Instant}
    (hp : a.loop.phase = .waiting wake c e p) (h : a.Open c) (hm : a.Placed)
    (hlast : ∃ at_, a.done.getLast? = some (.begun at_ e)) : (a.step m).Stands := by
  rw [step_of_ne_ready (by rw [hp]; nofun)]
  unfold ViewLoop.strokes ViewLoop.stepAt ViewLoop.step
  rw [hp]
  dsimp only
  split
  · change (a.note [] { a.loop with phase := .folding c e p }).Stands
    rw [note_nil rfl]
    exact And.intro (h.keep rfl) ⟨hm, hlast⟩
  · rw [note_nil (by rw [hp]; rfl)]
    unfold Stands
    rw [hp]
    exact ⟨h, hm, hlast⟩

theorem Shut.keep (h : a.Shut) (config : l.config = a.loop.config) :
    ({ a with loop := l } : Account σ).Shut where
  orderly := by
    change Orderly l.config.lockWait a.done
    rw [config]
    exact h.orderly
  closes := h.closes
  settled := h.settled

/-- A pause between cycles. -/
theorem stands_sleeping {wake : Instant} (hp : a.loop.phase = .sleeping wake) (h : a.Shut) :
    (a.step m).Stands := by
  rw [step_of_ne_ready (by rw [hp]; nofun)]
  unfold ViewLoop.strokes ViewLoop.stepAt ViewLoop.step
  rw [hp]
  dsimp only
  split
  · change (a.note [] { a.loop with phase := .ready }).Stands
    rw [note_nil rfl]
    exact h.keep rfl
  · rw [note_nil (by rw [hp]; rfl)]
    unfold Stands
    rw [hp]
    exact h

/-- The end of a cycle, after which the loop pauses. -/
theorem stands_ended {o : Outcome} (hp : a.loop.phase = .ended o) (h : a.Shut) :
    (a.step m).Stands := by
  rw [step_of_ne_ready (by rw [hp]; nofun)]
  unfold ViewLoop.strokes ViewLoop.stepAt ViewLoop.step
  rw [hp]
  change (a.note [] (a.loop.rest m.now o)).Stands
  rw [note_nil rfl]
  exact h.keep rfl

/-- A loop that is over stays as it is. -/
theorem stands_over (hp : a.loop.phase = .stopped ∨ a.loop.phase = .crashed) (h : a.Shut) :
    (a.step m).Stands := by
  have hstay : a.step m = a := by
    rcases hp with hp | hp
    · rw [step_of_ne_ready (by rw [hp]; nofun)]
      unfold ViewLoop.strokes ViewLoop.stepAt ViewLoop.step
      rw [hp]
      exact note_nil (by rw [hp]; rfl)
    · rw [step_of_ne_ready (by rw [hp]; nofun)]
      unfold ViewLoop.strokes ViewLoop.stepAt ViewLoop.step
      rw [hp]
      exact note_nil (by rw [hp]; rfl)
  rw [hstay]
  unfold Stands
  rcases hp with hp | hp
  · rw [hp]
    exact h
  · rw [hp]
    exact h

/-- The start of a cycle, with a new account, or the stop of the loop. -/
theorem stands_ready (hp : a.loop.phase = .ready) : (a.step m).Stands := by
  unfold step ViewLoop.stepAt ViewLoop.step
  rw [hp]
  dsimp only
  split
  · exact Shut.mk (orderly_nil _) nofun fun _ _ hmem => nomatch hmem
  · exact And.intro rfl rfl

/-! ### A whole run -/

/-- What is known of an account is known after one more step. -/
theorem stands_step (h : a.Stands) (m : Moment σ) : (a.step m).Stands := by
  unfold Stands at h
  cases hp : a.loop.phase <;> rw [hp] at h
  case ready => exact stands_ready hp
  case acquiring => exact stands_acquiring hp h.1 h.2
  case checkingReset c => exact stands_checkingReset hp h.1 h.2
  case clearing c => exact stands_clearing hp h.1 h.2
  case dropping c => exact stands_dropping hp h.1 h.2
  case locating c => exact stands_locating hp h.1 h.2
  case paging c => exact stands_paging hp h.1 h.2
  case between c p => exact stands_between hp h.1 h.2
  case renewing c e p => exact stands_renewing hp h.1 h.2
  case waiting wake c e p => exact stands_waiting hp h.1 h.2.1 h.2.2
  case folding c e p => exact stands_folding hp h.1 h.2.1 h.2.2
  case writing c e p f => exact stands_writing hp h.1 h.2.1 h.2.2
  case recording c e p => exact stands_recording hp h.1 h.2.1 h.2.2
  case ended o => exact stands_ended hp h
  case sleeping wake => exact stands_sleeping hp h
  case stopped => exact stands_over (.inl hp) h
  case crashed => exact stands_over (.inr hp) h

theorem stands_run (h : a.Stands) (moments : List (Moment σ)) : (a.run moments).Stands := by
  induction moments generalizing a with
  | nil => exact h
  | cons m moments ih => exact ih (stands_step h m)

theorem config_run (a : Account σ) (moments : List (Moment σ)) :
    (a.run moments).loop.config = a.loop.config := by
  induction moments generalizing a with
  | nil => rfl
  | cons m moments ih =>
    have hstep : (a.step m).loop.config = a.loop.config := by
      unfold step
      split <;> exact ViewLoop.config_stepAt a.loop m
    exact (ih (a.step m)).trans hstep

theorem stands_start (l : ViewLoop σ) : (start l).Stands :=
  Shut.mk (orderly_nil _) nofun fun _ _ hmem => nomatch hmem

/-- Either nothing has been done, or the cycle goes on and nothing has failed, or it is over and the
loop is idle. -/
theorem Stands.cases (h : a.Stands) :
    a.done = [] ∧ a.outcome = none ∨ (∃ c, a.Open c) ∨ a.Shut ∧ a.loop.Idle := by
  unfold Stands at h
  cases hp : a.loop.phase <;> rw [hp] at h
  case acquiring => exact .inl h
  case ready | ended | sleeping | stopped | crashed =>
    exact .inr (.inr ⟨h, ViewLoop.idle_of_outside (by rw [hp]; rfl) (by rw [hp]; nofun)⟩)
  all_goals exact .inr (.inl ⟨_, h.1⟩)

theorem Stands.orderly (h : a.Stands) : Orderly a.loop.config.lockWait a.done := by
  rcases h.cases with ⟨hdone, -⟩ | ⟨c, h⟩ | ⟨h, -⟩
  · rw [hdone]
    exact orderly_nil _
  · exact h.orderly
  · exact h.orderly

/-- Behind a call that has failed the cycle is over. -/
theorem Stands.shut_of_failed {call : Call} {err : Error} (h : a.Stands)
    (hf : .failed call err ∈ a.done) : a.Shut ∧ a.loop.Idle := by
  rcases h.cases with ⟨hdone, -⟩ | ⟨c, h⟩ | h
  · rw [hdone] at hf
    cases hf
  · cases h.smooth _ hf
  · exact h

/-- A cycle whose last call has failed has an outcome, which its strokes account for. -/
theorem Stands.closes_of_failed {pre : List Stroke} {call : Call} {err : Error} (h : a.Stands)
    (heq : a.done = pre ++ [.failed call err]) :
    ∃ o, a.outcome = some o ∧ Closes (pre ++ [.failed call err]) o := by
  have hmem : .failed call err ∈ a.done := by
    rw [heq]
    exact List.mem_concat_self
  obtain ⟨hshut, -⟩ := h.shut_of_failed hmem
  obtain ⟨o, ho⟩ := Option.ne_none_iff_exists'.1 (hshut.settled _ _ hmem)
  exact ⟨o, ho, heq ▸ hshut.closes o ho⟩

/-- The discipline of a cycle, under a lease for `wait`. -/
structure Disciplined (wait : Duration) (a : Account σ) : Prop where
  /-- The first stroke is a renewal. -/
  opens : ∀ x post, a.done = x :: post → x.isRenewal = true
  /-- A fold begins right behind a renewal, or within a third of the lease from the last one. -/
  fresh : ∀ pre at_ e post, a.done = pre ++ .begun at_ e :: post → Fresh wait pre at_
  /-- Only an event that has been handed over is folded, right behind that. -/
  folded : ∀ pre e post, a.done = pre ++ .folded e :: post →
    ∃ pre' at_, pre = pre' ++ [.begun at_ e, .read e]
  /-- Only what has just been folded is recorded. -/
  recorded : ∀ pre p post, a.done = pre ++ .recorded p :: post →
    ∃ e, pre.getLast? = some (.folded e) ∧ p = e.position
  /-- A call that fails, be it a renewal or another one, is the last stroke of its cycle. The cycle
  is over, and the loop leaves everything alone. -/
  silent : ∀ pre call err post, a.done = pre ++ .failed call err :: post →
    post = [] ∧ a.outcome ≠ none ∧ a.loop.Idle
  /-- If the first renewal fails, the cycle ends with nothing done. -/
  barred : ∀ call err, a.done = [.failed call err] →
    if err.isLockHeld = true then a.outcome = some .lockHeld
    else ∃ mark, a.outcome = some (.halted 0 mark err)
  /-- If another call fails, the cycle ends with what it has recorded, behind the last position of
  it or, if there is none, at the watermark that it has read. -/
  halted : ∀ pre call err, pre ≠ [] → a.done = pre ++ [.failed call err] →
    ∃ mark, a.outcome = some (.halted (recordings pre).length mark err)
      ∧ ∀ start, startingMark pre = some start → mark = (recordings pre).getLastD start
  /-- A cycle stands by only if its first renewal found the lease held elsewhere. -/
  standby : a.outcome = some .lockHeld →
    ∃ view err, a.done = [.failed (.renew view) err] ∧ err.isLockHeld = true

theorem Stands.disciplined (h : a.Stands) : a.Disciplined a.loop.config.lockWait where
  opens := fun x post heq => (h.orderly [] x post heq).first rfl
  fresh := fun pre at_ e post heq => (h.orderly pre _ post heq).follows
  folded := by
    intro pre e post heq
    obtain ⟨pre₁, rfl⟩ := List.getLast?_eq_some_iff.1 (h.orderly pre _ post heq).follows
    have hread : a.done = pre₁ ++ .read e :: (.folded e :: post) := by
      rw [heq, List.append_assoc]
      rfl
    obtain ⟨at_, hlast⟩ := (h.orderly pre₁ _ _ hread).follows
    obtain ⟨pre₂, rfl⟩ := List.getLast?_eq_some_iff.1 hlast
    exact ⟨pre₂, at_, by rw [List.append_assoc]; rfl⟩
  recorded := fun pre p post heq => (h.orderly pre _ post heq).follows
  silent := by
    intro pre call err post heq
    have hmem : .failed call err ∈ a.done := by
      rw [heq]
      exact List.mem_append_right _ List.mem_cons_self
    obtain ⟨hshut, hidle⟩ := h.shut_of_failed hmem
    refine ⟨?_, hshut.settled _ _ hmem, hidle⟩
    cases post with
    | nil => rfl
    | cons y post =>
      have hdone : a.done = (pre ++ [.failed call err]) ++ y :: post := by
        rw [heq, List.append_assoc]
        rfl
      cases (h.orderly _ y post hdone).smooth _ List.mem_concat_self
  barred := by
    intro call err heq
    obtain ⟨o, hout, hcloses⟩ := h.closes_of_failed (heq.trans (List.nil_append _).symm)
    rcases hcloses.of_failed with ⟨-, held, rfl⟩ | ⟨mark, first, rfl, -⟩
    · rw [if_pos held]
      exact hout
    · rw [if_neg (by rw [first rfl]; nofun)]
      exact ⟨mark, hout⟩
  halted := by
    intro pre call err hpre heq
    obtain ⟨o, hout, hcloses⟩ := h.closes_of_failed heq
    rcases hcloses.of_failed with ⟨hnil, -, -⟩ | ⟨mark, -, rfl, reached⟩
    · exact absurd hnil hpre
    · exact ⟨mark, hout, reached⟩
  standby := by
    intro hout
    rcases h.cases with ⟨-, hnone⟩ | ⟨c, hopen⟩ | ⟨hshut, -⟩
    · rw [hnone] at hout
      cases hout
    · rw [hopen.pending] at hout
      cases hout
    · exact (hshut.closes _ hout).of_lockHeld

/-- **The lease over a cycle.** In every cycle of a loop, whatever its handler and its settings are,
whatever becomes of its calls, whatever others do in between and however long anything takes: a fold
begins only right behind a renewal or within a third of the lease from the last one; behind a call
that has failed nothing is done any more; the outcome of the cycle is what it has recorded. -/
theorem disciplined_run (l : ViewLoop σ) (moments : List (Moment σ)) :
    ((start l).run moments).Disciplined l.config.lockWait := by
  have hstands : ((start l).run moments).Stands := stands_run (stands_start l) moments
  have hconfig : ((start l).run moments).loop.config = l.config := config_run (start l) moments
  rw [← hconfig]
  exact hstands.disciplined

end Account

end Chronicle
