import Mathlib.Logic.Function.Basic
import Chronicle.Proofs.Command.Land
import Chronicle.Proofs.Loop.Turn
import Chronicle.Proofs.View.Shipped
/-!
# Fleets

Several loops maintain one view, on one instance or on many. What happens to them comes in any
order: a loop takes a step, with whatever becomes of its call; it is cut off; it is started anew;
events are appended and the view is asked to be built again; time passes.

* `Fleet`, `Fleet.Act`, `Fleet.act`, **`Fleet.run`**;
* `Fleet.Apart`: at most one loop is in a cycle;
* `ViewKind.fleet`: a fleet over an empty log and an empty view.
-/

namespace Chronicle

/-- Loops on one view, and what they share. -/
structure Fleet (ι σ : Type) where
  now : Instant
  loops : ι → ViewLoop σ
  shared : Shared σ

namespace Fleet

/-- What happens to a fleet. -/
inductive Act (ι : Type) where
  /-- The loop `i` takes a step, and `v` is what becomes of its call. -/
  | step (i : ι) (stop : Bool) (v : Verdict)
  /-- The loop `i` is cut off, between two steps. -/
  | cut (i : ι)
  /-- The loop `i` is started anew, if it has come to its end. -/
  | restart (i : ι)
  /-- Somebody tries to append. -/
  | append (a : Attempt)
  /-- Somebody handles a command, at an instant of their own. -/
  | command (c : Command) (editor : String) (at_ : Instant)
  /-- Somebody asks for a view to be built again. -/
  | requestReset (view : String)
  /-- Time passes. -/
  | pass (d : Duration)

variable {ι σ : Type} [DecidableEq ι]

/-- The fleet with another loop in the place of `i`, and another shared state. -/
def put (f : Fleet ι σ) (i : ι) (l : ViewLoop σ) (s : Shared σ) : Fleet ι σ :=
  { f with loops := Function.update f.loops i l, shared := s }

theorem loops_put_self (f : Fleet ι σ) (i : ι) (l : ViewLoop σ) (s : Shared σ) :
    (f.put i l s).loops i = l :=
  Function.update_self ..

theorem loops_put_of_ne (f : Fleet ι σ) {i j : ι} (h : j ≠ i) (l : ViewLoop σ) (s : Shared σ) :
    (f.put i l s).loops j = f.loops j :=
  Function.update_of_ne h ..

/-- The fleet with another log. -/
def withLog (f : Fleet ι σ) (log : EventLog) : Fleet ι σ :=
  { f with shared := { f.shared with log := log } }

/-- The fleet after something happened. -/
def act (f : Fleet ι σ) : Act ι → Fleet ι σ
  | .step i stop v =>
    let r := (f.loops i).step f.now stop v f.shared
    f.put i r.loop r.shared
  | .cut i => f.put i { f.loops i with phase := .crashed } f.shared
  | .restart i =>
    if (f.loops i).phase.isOver then f.put i { f.loops i with phase := .ready } f.shared else f
  | .append a => f.withLog (a.land f.shared.log)
  | .command c editor at_ => f.withLog (c.land editor at_ f.shared.log)
  | .requestReset view =>
    { f with shared := { f.shared with marks := f.shared.marks.requestReset f.now view } }
  | .pass d => { f with now := f.now.add d }

/-- The fleet after a list of happenings. -/
def run (f : Fleet ι σ) (acts : List (Act ι)) : Fleet ι σ :=
  acts.foldl act f

theorem run_concat (f : Fleet ι σ) (acts : List (Act ι)) (a : Act ι) :
    f.run (acts ++ [a]) = (f.run acts).act a := by
  unfold run
  rw [List.foldl_append]
  rfl

theorem run_append (f : Fleet ι σ) (acts acts' : List (Act ι)) :
    f.run (acts ++ acts') = (f.run acts).run acts' :=
  List.foldl_append ..

omit [DecidableEq ι] in
/-- At most one loop is in a cycle. -/
def Apart (f : Fleet ι σ) : Prop :=
  ∀ i j, (f.loops i).phase.inCycle = true → (f.loops j).phase.inCycle = true → i = j

theorem prefix_act_log (f : Fleet ι σ) (a : Act ι) :
    f.shared.log.events <+: (f.act a).shared.log.events := by
  cases a with
  | step i stop v =>
    have hlog : (f.act (.step i stop v)).shared.log = f.shared.log :=
      ((f.loops i).step_turn f.shared).log_eq
    exact hlog.symm ▸ List.prefix_rfl
  | restart i =>
    have hs : (f.act (.restart i)).shared = f.shared := by
      change (if (f.loops i).phase.isOver then _ else f).shared = f.shared
      split <;> rfl
    exact hs.symm ▸ List.prefix_rfl
  | append a => exact Attempt.prefix_land
  | command c editor at_ => exact Command.prefix_land
  | cut i => exact List.prefix_rfl
  | requestReset view => exact List.prefix_rfl
  | pass d => exact List.prefix_rfl

/-- Nothing that happens takes events from the log. -/
theorem prefix_run_log (f : Fleet ι σ) (acts : List (Act ι)) :
    f.shared.log.events <+: (f.run acts).shared.log.events := by
  induction acts generalizing f with
  | nil => exact List.prefix_rfl
  | cons a acts ih => exact (f.prefix_act_log a).trans (ih (f.act a))

end Fleet

/-- How a loop is set up. -/
structure LoopSetup where
  config : LoopConfig
  /-- The least time between the ends of two cycles. -/
  cycle : Duration
  /-- The time that a fold takes before it reads. -/
  delay : Duration := Duration.zero

/-- A fleet on a view that is empty and has no watermark, over a log without events. -/
def ViewKind.fleet {ι : Type} (v : ViewKind) (setup : ι → LoopSetup) (now : Instant)
    (schemas : Option SchemaSet) (leases : LeaseTable := Index.empty) : Fleet ι Stores where
  now := now
  loops i := { config := (setup i).config, handler := v.handler (setup i).cycle (setup i).delay }
  shared := { log := { schemas := schemas }, leases := leases, views := {} }

end Chronicle
