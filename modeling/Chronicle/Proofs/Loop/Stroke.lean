import Chronicle.Proofs.Loop.Passage
/-!
# What a cycle does

The steps of a loop are told from outside: what each of them does is a list of strokes, mostly of
one. A stroke is a call that has come back, with what it came to, or an event that is handed to the
handler.

Between two steps a loop waits in the call of its phase. So a call begins with the step that enters
the phase and comes back with the next one, and the time between two steps is the time that a call
takes. A fold begins where the event is handed over.

* `Stroke`; `lastRenewal`, `startingMark`, `recordings`: what a list of strokes says;
* `Moment`, `ViewLoop.stepAt`, **`ViewLoop.strokes`**: the strokes of a step;
* `ViewLoop.strokes_ne_nil_of_call?`, **`ViewLoop.shared_stepAt`**: no call and no write goes
  without a stroke;
* `ViewLoop.Idle`: a loop that leaves everything alone.
-/

namespace Chronicle

/-- What a cycle does. -/
inductive Stroke where
  /-- A renewal has come back, and the cycle has the lease. -/
  | renewed (at_ : Instant)
  /-- It has asked whether the view is to be built again. -/
  | asked
  /-- It has cleared the view. -/
  | cleared
  /-- It has dropped the watermark. -/
  | dropped
  /-- It has read the watermark. -/
  | located (mark : Int)
  /-- It has read a page. -/
  | paged
  /-- It hands an event to its handler, which begins to fold it. -/
  | begun (at_ : Instant) (e : Event)
  /-- The handler has read what the fold needs. -/
  | read (e : Event)
  /-- The handler has folded the event. -/
  | folded (e : Event)
  /-- The cycle has recorded a position. -/
  | recorded (position : Int)
  /-- A call has failed. -/
  | failed (c : Call) (error : Error)
  /-- The loop was cut off in a call. -/
  | lost (c : Call)

namespace Stroke

/-- The instant of a renewal. -/
def renewed? : Stroke → Option Instant
  | renewed at_ => some at_
  | _ => none

/-- The watermark that was read. -/
def located? : Stroke → Option Int
  | located mark => some mark
  | _ => none

/-- The position that was recorded. -/
def recorded? : Stroke → Option Int
  | recorded position => some position
  | _ => none

/-- The stroke is the last of its loop or of its cycle. -/
def isFailure : Stroke → Bool
  | failed _ _ => true
  | lost _ => true
  | _ => false

/-- The stroke is a renewal, whatever became of it. -/
def isRenewal : Stroke → Bool
  | renewed _ => true
  | failed (.renew _) _ => true
  | lost (.renew _) => true
  | _ => false

/-- The stroke has written something. A fold that fails may have. -/
def isWrite : Stroke → Bool
  | renewed _ => true
  | cleared => true
  | dropped => true
  | folded _ => true
  | recorded _ => true
  | failed (.process _) _ => true
  | _ => false

end Stroke

/-- When the lease was last renewed. -/
def lastRenewal (done : List Stroke) : Option Instant :=
  (done.filterMap Stroke.renewed?).getLast?

/-- The watermark that the cycle has read. -/
def startingMark (done : List Stroke) : Option Int :=
  (done.filterMap Stroke.located?).getLast?

/-- The positions that the cycle has recorded. -/
def recordings (done : List Stroke) : List Int :=
  done.filterMap Stroke.recorded?

section concat

variable (done : List Stroke) (x : Stroke)

@[simp] theorem lastRenewal_concat :
    lastRenewal (done ++ [x]) = x.renewed?.or (lastRenewal done) := by
  unfold lastRenewal
  rw [List.filterMap_append, List.getLast?_append]
  cases x <;> rfl

@[simp] theorem startingMark_concat :
    startingMark (done ++ [x]) = x.located?.or (startingMark done) := by
  unfold startingMark
  rw [List.filterMap_append, List.getLast?_append]
  cases x <;> rfl

@[simp] theorem recordings_concat :
    recordings (done ++ [x]) = recordings done ++ x.recorded?.toList := by
  unfold recordings
  rw [List.filterMap_append]
  cases x <;> rfl

end concat

/-! ## The strokes of a step -/

/-- When a loop takes a step, and over what. -/
structure Moment (σ : Type) where
  now : Instant
  stop : Bool
  verdict : Verdict
  shared : Shared σ

/-- The event that a handler has just been handed. -/
def Phase.inHand? {σ : Type} : Phase σ → Option Event
  | waiting _ _ e _ => some e
  | folding _ e _ => some e
  | _ => none

/-- The strokes of a call: `good` if it succeeds. -/
def Verdict.strokes {α : Type} (v : Verdict) (c : Call) (result : Except Error α)
    (good : List Stroke) : List Stroke :=
  match v.run result with
  | none => [.lost c]
  | some (.error err) => [.failed c err]
  | some (.ok _) => good

namespace ViewLoop

variable {σ : Type}

/-- The step at a moment. -/
def stepAt (l : ViewLoop σ) (m : Moment σ) : Stepped σ :=
  l.step m.now m.stop m.verdict m.shared

/-- The phase in which a fold starts has its event in hand. -/
@[simp] theorem inHand?_foldPhase (l : ViewLoop σ) (now : Instant) (c : Cycle) (e : Event)
    (p : Page) : (l.foldPhase now c e p).inHand? = some e := by
  unfold foldPhase
  split <;> rfl

/-- A step leaves the settings of a loop as they are. -/
theorem config_stepAt (l : ViewLoop σ) (m : Moment σ) :
    (l.stepAt m).loop.config = l.config := by
  have hturn : Turn m.now m.verdict l m.shared (l.stepAt m).loop (l.stepAt m).shared :=
    l.step_turn m.shared
  generalize (l.stepAt m).loop = l' at hturn ⊢
  generalize (l.stepAt m).shared = s' at hturn
  cases hturn with
  | leave config handler out recorded => exact config
  | spoil was failed config handler out => exact config
  | _ => rfl

/-- The strokes of the step at a moment. -/
def strokes (l : ViewLoop σ) (m : Moment σ) : List Stroke :=
  let view := l.handler.view
  let begun := (l.stepAt m).loop.phase.inHand?.toList.map (.begun m.now)
  let renewal := m.shared.leases.renew m.now l.config.holder view l.config.lockWait
  match l.phase with
  | .acquiring => m.verdict.strokes (.renew view) renewal [.renewed m.now]
  | .checkingReset _ =>
    m.verdict.strokes (.mark .resetRequested) (.ok (m.shared.marks.resetRequested view)) [.asked]
  | .clearing _ =>
    m.verdict.strokes (.clear view) (.ok (l.handler.clear m.shared.views)) [.cleared]
  | .dropping _ => m.verdict.strokes (.mark .drop) (.ok (m.shared.marks.drop view)) [.dropped]
  | .locating _ =>
    m.verdict.strokes (.mark .current) (.ok (m.shared.marks.current view))
      [.located (m.shared.marks.current view)]
  | .paging _ =>
    if m.stop then [] else m.verdict.strokes .query (.ok (m.shared.log.query l.pageFilter)) [.paged]
  | .between _ _ => begun
  | .renewing _ _ _ => m.verdict.strokes (.renew view) renewal (.renewed m.now :: begun)
  | .folding _ e _ =>
    m.verdict.strokes (.process view) (.ok (l.handler.fold m.shared.views e)) [.read e]
  | .writing _ e _ f =>
    match f.error with
    | none => [.folded e]
    | some err => [.failed (.process view) err]
  | .recording _ e _ =>
    m.verdict.strokes (.mark .advance) (.ok (m.shared.marks.advance m.now view e.position))
      [.recorded e.position]
  | _ => []

/-- A step that makes a call leaves a stroke. -/
theorem strokes_ne_nil_of_call? {l : ViewLoop σ} {m : Moment σ} {c : Call}
    (h : l.phase.call? l.handler.view m.stop = some c) : l.strokes m ≠ [] := by
  unfold strokes Verdict.strokes
  cases hp : l.phase <;> rw [hp] at h
  case paging =>
    cases hstop : m.stop with
    | true =>
      rw [hstop] at h
      cases h
    | false => dsimp only; rcases m.verdict.run _ with _ | _ | _ <;> nofun
  case ready | between | waiting | writing | ended | sleeping | stopped | crashed => cases h
  all_goals
    dsimp only
    rcases m.verdict.run _ with _ | _ | _ <;> nofun

/-- A step that leaves no stroke of a write changes nothing that loops share. -/
theorem shared_stepAt {l : ViewLoop σ} {m : Moment σ}
    (h : ∀ x ∈ l.strokes m, x.isWrite = false) : (l.stepAt m).shared = m.shared := by
  unfold strokes Verdict.strokes at h
  unfold stepAt step
  cases hp : l.phase <;> rw [hp] at h
  case ready | waiting | sleeping =>
    dsimp only
    split <;> rfl
  case between c p =>
    change (l.turn m.shared m.now c p).shared = m.shared
    unfold turn
    split
    · split <;> rfl
    · dsimp only
      split <;> rfl
  case paging =>
    cases m.stop with
    | true => rfl
    | false =>
      dsimp only
      rcases m.verdict.run _ with _ | _ | _ <;> rfl
  case checkingReset =>
    dsimp only
    rcases m.verdict.run _ with _ | _ | _ | _ <;> rfl
  case locating | folding =>
    dsimp only
    rcases m.verdict.run _ with _ | _ | _ <;> rfl
  case writing c e p f =>
    dsimp only at h
    cases hf : f.error <;> rw [hf] at h <;> cases h _ List.mem_cons_self
  case acquiring =>
    unfold acquire
    dsimp only at h ⊢
    generalize m.verdict.run _ = r at h ⊢
    rcases r with _ | err | _
    · rfl
    · cases err <;> rfl
    · cases h _ List.mem_cons_self
  case clearing | dropping | renewing | recording =>
    dsimp only at h ⊢
    generalize m.verdict.run _ = r at h ⊢
    rcases r with _ | err | _
    · rfl
    · rfl
    · cases h _ List.mem_cons_self

/-- The next step makes no call and changes nothing that loops share. -/
def Idle (l : ViewLoop σ) : Prop :=
  ∀ m : Moment σ, l.phase.call? l.handler.view m.stop = none ∧ (l.stepAt m).shared = m.shared

/-- A loop outside of a cycle is idle, unless it is about to take the lease. -/
theorem idle_of_outside {l : ViewLoop σ} (out : l.phase.inCycle = false)
    (h : l.phase ≠ .acquiring) : l.Idle := by
  intro m
  have hquiet : l.strokes m = [] := by
    unfold strokes
    cases hp : l.phase
    case acquiring => exact absurd hp h
    all_goals first
      | rfl
      | rw [hp] at out; cases out
  refine ⟨?_, shared_stepAt (by rw [hquiet]; nofun)⟩
  by_contra hcall
  obtain ⟨c, hc⟩ := Option.ne_none_iff_exists'.1 hcall
  exact strokes_ne_nil_of_call? hc hquiet

end ViewLoop

end Chronicle
