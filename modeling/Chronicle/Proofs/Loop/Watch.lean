import Chronicle.Proofs.Loop.Fleet
/-!
# What has become of a view

Whether a view holds what its watermark says cannot be seen from a fleet alone. It takes what has
been folded since the view was last cleared, and whether a loop has read the watermark since it was
last dropped. This is kept beside the fleet, and what happens to the fleet does not depend on it.

* `Stride`, `Phase.stride?`: what a step does, told from the phases before and behind it;
* `Watched`, `Watched.act`, **`Watched.run`**: a fleet with the history of its view;
* `Watched.fleet_run`: watching a fleet changes nothing about it;
* `Handler.watch`: loops that have not started.
-/

namespace Chronicle

/-! ## What is folded -/

/-- What a step of a loop does to a view or its watermark, apart from moving it up. -/
inductive Stride where
  /-- It folds an event. -/
  | folded (e : Event)
  /-- It clears the view. -/
  | cleared
  /-- It drops the watermark. -/
  | dropped
  /-- It reads the watermark. -/
  | located

namespace Phase

variable {σ : Type} {phase phase' : Phase σ} {e : Event} {p : Page}

/-- What a step from one phase to another does. -/
def stride? : Phase σ → Phase σ → Option Stride
  | writing _ e _ _, recording _ _ _ => some (.folded e)
  | clearing _, dropping _ => some .cleared
  | dropping _, locating _ => some .dropped
  | locating _, paging _ => some .located
  | _, _ => none

/-- The loop has cleared the view and has not dropped the watermark yet. -/
def isDropping : Phase σ → Bool
  | dropping _ => true
  | _ => false

/-- The loop is about to clear the view, or to drop its watermark. -/
def isRebuilding : Phase σ → Bool
  | clearing _ => true
  | dropping _ => true
  | _ => false

/-- What a loop that has read the watermark is still to fold of its page. -/
def ahead? : Phase σ → Option (List Event)
  | paging _ => some []
  | between _ p => some p.rest
  | renewing _ e p => some (e :: p.rest)
  | waiting _ _ e p => some (e :: p.rest)
  | folding _ e p => some (e :: p.rest)
  | writing _ e p _ => some (e :: p.rest)
  | recording _ e p => some (e :: p.rest)
  | _ => none

theorem ahead?_of_facing (h : phase.facing? = some (e, p)) : phase.ahead? = some (e :: p.rest) := by
  cases phase <;> cases h <;> rfl

theorem ahead?_of_not_inCycle (h : phase.inCycle = false) : phase.ahead? = none := by
  cases phase <;> first | rfl | cases h

theorem ne_recording_of_facing (h : phase.facing? = some (e, p)) (c : Cycle) (e' : Event)
    (p' : Page) : phase ≠ recording c e' p' := by
  rintro rfl
  cases h

theorem isDropping_of_isOver (h : phase.isOver = true) : phase.isDropping = false := by
  cases phase <;> first | rfl | cases h

theorem isDropping_of_not_isRebuilding (h : phase.isRebuilding = false) :
    phase.isDropping = false := by
  cases phase <;> first | rfl | cases h

theorem isRebuilding_of_not_inCycle (h : phase.inCycle = false) : phase.isRebuilding = false := by
  cases phase <;> first | rfl | cases h

theorem isRebuilding_of_facing (h : phase.facing? = some (e, p)) : phase.isRebuilding = false := by
  cases phase <;> first | rfl | cases h

theorem isDropping_of_stride? (h : phase.stride? phase' = some .dropped) :
    phase.isDropping = true := by
  cases phase <;> first | rfl | (cases phase' <;> cases h)

theorem stride?_of_facing (h : phase'.facing? = some (e, p)) : phase.stride? phase' = none := by
  cases phase' <;> cases h <;> cases phase <;> rfl

theorem stride?_of_not_inCycle (h : phase'.inCycle = false) : phase.stride? phase' = none := by
  cases phase' <;> cases h <;> cases phase <;> rfl

end Phase

/-- A fleet with the history of its view. -/
structure Watched (ι σ : Type) where
  fleet : Fleet ι σ
  /-- The events folded since the view was last cleared. -/
  folded : List Event := []
  /-- How often the watermark was dropped. -/
  drops : Nat := 0
  /-- How often it had been dropped when a loop last read it. -/
  read : ι → Nat := fun _ => 0

namespace Watched

variable {ι σ : Type} [DecidableEq ι]

/-- The history after the loop `i` did something. -/
def enter (w : Watched ι σ) (i : ι) : Option Stride → Watched ι σ
  | none => w
  | some (.folded e) => { w with folded := w.folded ++ [e] }
  | some .cleared => { w with folded := [] }
  | some .dropped => { w with drops := w.drops + 1 }
  | some .located => { w with read := Function.update w.read i w.drops }

/-- The fleet with another loop in the place of `i` and another shared state, with its history. -/
def move (w : Watched ι σ) (i : ι) (l : ViewLoop σ) (s : Shared σ) : Watched ι σ :=
  { w.enter i ((w.fleet.loops i).phase.stride? l.phase) with fleet := w.fleet.put i l s }

/-- The fleet after something happened, with its history. -/
def act (w : Watched ι σ) : Fleet.Act ι → Watched ι σ
  | .step i stop v =>
    let r := (w.fleet.loops i).step w.fleet.now stop v w.fleet.shared
    w.move i r.loop r.shared
  | a => { w with fleet := w.fleet.act a }

/-- The fleet after a list of happenings, with its history. -/
def run (w : Watched ι σ) (acts : List (Fleet.Act ι)) : Watched ι σ :=
  acts.foldl act w

theorem fleet_act (w : Watched ι σ) (a : Fleet.Act ι) : (w.act a).fleet = w.fleet.act a := by
  cases a <;> rfl

/-- Watching a fleet changes nothing about it. -/
theorem fleet_run (w : Watched ι σ) (acts : List (Fleet.Act ι)) :
    (w.run acts).fleet = w.fleet.run acts := by
  induction acts generalizing w with
  | nil => rfl
  | cons a acts ih =>
    have h := ih (w.act a)
    rw [fleet_act] at h
    exact h

theorem run_append (w : Watched ι σ) (acts acts' : List (Fleet.Act ι)) :
    w.run (acts ++ acts') = (w.run acts).run acts' :=
  List.foldl_append ..

section

variable {w : Watched ι σ} {i : ι} {l : ViewLoop σ} {s : Shared σ}

/-- A step, by what it does. -/
theorem move_of_stride (stride : Option Stride)
    (hs : (w.fleet.loops i).phase.stride? l.phase = stride) :
    w.move i l s = { w.enter i stride with fleet := w.fleet.put i l s } := by
  rw [← hs]
  rfl

/-- Only a loop that is about to drop the watermark does. -/
theorem drops_move (hd : (w.fleet.loops i).phase.isDropping = false) :
    (w.move i l s).drops = w.drops := by
  cases hs : (w.fleet.loops i).phase.stride? l.phase with
  | none => rw [move_of_stride none hs]; rfl
  | some stride =>
    rw [move_of_stride _ hs]
    cases stride with
    | dropped =>
      rw [Phase.isDropping_of_stride? hs] at hd
      cases hd
    | _ => rfl

theorem act_of_step {notices : List Notice}
    (hstep : (w.fleet.loops i).step w.fleet.now false .pass w.fleet.shared = ⟨l, s, notices⟩)
    (stride : Option Stride) (hs : (w.fleet.loops i).phase.stride? l.phase = stride) :
    w.act (.step i false .pass) = { w.enter i stride with fleet := w.fleet.put i l s } := by
  change w.move i _ _ = _
  rw [hstep]
  exact move_of_stride stride hs

end

end Watched

/-- Loops over a log that follow the view of `h` and have not started, with the view as it is and
without a watermark. -/
def Handler.watch {ι σ : Type} (h : Handler σ) (setup : ι → LoopSetup) (now : Instant)
    (log : EventLog) (leases : LeaseTable) (views : σ) : Watched ι σ where
  fleet :=
    { now := now
      loops := fun i =>
        { config := (setup i).config
          handler := { h with cycle := (setup i).cycle, delay := (setup i).delay } }
      shared := { log := log, leases := leases, views := views } }

end Chronicle
