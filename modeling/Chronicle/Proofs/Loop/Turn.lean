import Chronicle.Loop.Machine
/-!
# What a step of a loop can do

A step makes at most one call and moves between few phases. What a step can do is listed once, so
that a property of loops is checked turn by turn and never phase by phase.

* `Phase.inCycle`: the phases between taking the lease and the end of the cycle;
* `Phase.facing?`: the event that a loop is about to fold;
* `Turn`: everything that a step can do to a loop and to what loops share;
* **`ViewLoop.step_turn`**: a step does nothing else.
-/

namespace Chronicle

namespace Phase

variable {σ : Type}

/-- The loop has taken the lease for a cycle and the cycle has not ended. -/
def inCycle : Phase σ → Bool
  | checkingReset _ => true
  | clearing _ => true
  | dropping _ => true
  | locating _ => true
  | paging _ => true
  | between _ _ => true
  | renewing _ _ _ => true
  | waiting _ _ _ _ => true
  | folding _ _ _ => true
  | writing _ _ _ _ => true
  | recording _ _ _ => true
  | _ => false

/-- The event that the loop is about to fold, and the page behind it. -/
def facing? : Phase σ → Option (Event × Page)
  | renewing _ e p => some (e, p)
  | waiting _ _ e p => some (e, p)
  | folding _ e p => some (e, p)
  | _ => none

end Phase

/-- What a step of the loop `l` at `now`, over the shared state `s` and under the verdict `v`, can
come to. -/
inductive Turn {σ : Type} (now : Instant) (v : Verdict) (l : ViewLoop σ) (s : Shared σ) :
    ViewLoop σ → Shared σ → Prop where
  /-- The loop is outside of a cycle behind the step. It leaves a fold unrecorded only if the call
  does not pass. -/
  | leave {l' : ViewLoop σ} (config : l'.config = l.config) (handler : l'.handler = l.handler)
      (out : l'.phase.inCycle = false)
      (recorded : v = .pass → ∀ c e p, l.phase ≠ .recording c e p) :
      Turn now v l s l' s
  /-- It takes the lease. -/
  | begin {c : Cycle} {leases : LeaseTable} (was : l.phase = .acquiring) :
      Turn now v l s { l with phase := .checkingReset c } { s with leases := leases }
  /-- It finds a request to build the view again. -/
  | rebuild {c : Cycle} (was : l.phase = .checkingReset c)
      (requested : s.marks.resetRequested l.handler.view = true) :
      Turn now v l s { l with phase := .clearing c } s
  /-- It finds no such request. -/
  | resume {c : Cycle} (was : l.phase = .checkingReset c)
      (requested : s.marks.resetRequested l.handler.view = false) :
      Turn now v l s { l with phase := .locating c } s
  /-- It clears the view. -/
  | clear {c : Cycle} (was : l.phase = .clearing c) :
      Turn now v l s { l with phase := .dropping c }
        { s with views := l.handler.clear s.views }
  /-- It drops the watermark. -/
  | drop {c : Cycle} (was : l.phase = .dropping c) :
      Turn now v l s { l with mark := 0, phase := .locating c }
        { s with marks := s.marks.drop l.handler.view }
  /-- It reads the watermark. -/
  | locate {c : Cycle} (was : l.phase = .locating c) :
      Turn now v l s { l with mark := s.marks.current l.handler.view, phase := .paging c } s
  /-- It reads a page. -/
  | page {c : Cycle} (was : l.phase = .paging c) :
      Turn now v l s
        { l with
          phase := .between c ⟨s.log.query l.pageFilter, (s.log.query l.pageFilter).length⟩ } s
  /-- A page is done and another follows. -/
  | more {c : Cycle} {p : Page} (was : l.phase = .between c p) (done : p.rest = []) :
      Turn now v l s { l with phase := .paging c } s
  /-- It faces the next event of a page. -/
  | take {c : Cycle} {p : Page} {e : Event} {rest : List Event} {phase : Phase σ}
      (was : l.phase = .between c p) (next : p.rest = e :: rest)
      (faces : phase.facing? = some (e, { p with rest := rest })) :
      Turn now v l s { l with phase := phase } s
  /-- It goes on facing its event. -/
  | keep {e : Event} {p : Page} {phase : Phase σ} {leases : LeaseTable}
      (was : l.phase.facing? = some (e, p)) (faces : phase.facing? = some (e, p)) :
      Turn now v l s { l with phase := phase } { s with leases := leases }
  /-- It reads what a fold needs. -/
  | read {c : Cycle} {e : Event} {p : Page} (was : l.phase = .folding c e p) :
      Turn now v l s { l with phase := .writing c e p (l.handler.fold s.views e) } s
  /-- It writes what a fold comes to. -/
  | write {c : Cycle} {e : Event} {p : Page} {f : Fold σ} (was : l.phase = .writing c e p f)
      (ok : f.error = none) :
      Turn now v l s { l with phase := .recording c e p }
        { s with views := f.write s.views }
  /-- A fold ends in an error. -/
  | spoil {c : Cycle} {e : Event} {p : Page} {f : Fold σ} {err : Error} {l' : ViewLoop σ}
      (was : l.phase = .writing c e p f) (failed : f.error = some err)
      (config : l'.config = l.config) (handler : l'.handler = l.handler)
      (out : l'.phase.inCycle = false) :
      Turn now v l s l' { s with views := f.write s.views }
  /-- It records that an event is folded. -/
  | record {c c' : Cycle} {e : Event} {p : Page} (was : l.phase = .recording c e p) :
      Turn now v l s { l with mark := e.position, phase := .between c' p }
        { s with marks := s.marks.advance now l.handler.view e.position }

/-- No step of a loop changes the log. -/
theorem Turn.log_eq {σ : Type} {now : Instant} {v : Verdict} {l l' : ViewLoop σ}
    {s s' : Shared σ} (h : Turn now v l s l' s') : s'.log = s.log := by
  cases h <;> rfl

namespace Verdict

variable {α : Type} {v : Verdict} {r : Except Error α} {a : α} {e : Error}

/-- A call that passes is not cut off. -/
theorem ne_pass_of_run_eq_none (h : v.run r = none) : v ≠ .pass := by
  rintro rfl
  cases h

/-- A call that passes does not fail of itself. -/
theorem ne_pass_of_run_eq_error (h : v.run (.ok a) = some (.error e)) : v ≠ .pass := by
  rintro rfl
  cases h

/-- A call that is carried out gives its result. -/
theorem eq_ok_of_run_eq_ok (h : v.run r = some (.ok a)) : r = .ok a := by
  cases v with
  | pass => exact Option.some.inj h
  | fail e => cases Option.some.inj h
  | crash => cases h

end Verdict

namespace ViewLoop

variable {σ : Type} {now : Instant} {stop : Bool} {v : Verdict}

/-- The phase in which a fold starts faces its event. -/
theorem foldPhase_facing? (l : ViewLoop σ) (now : Instant) (c : Cycle) (e : Event) (p : Page) :
    (l.foldPhase now c e p).facing? = some (e, p) := by
  unfold foldPhase
  split <;> rfl

/-! ## Steps that end a cycle -/

section leave

variable (l : ViewLoop σ) (s : Shared σ)

theorem turn_halt (n : Nat) (err : Error)
    (hr : v = .pass → ∀ c e p, l.phase ≠ .recording c e p) :
    Turn now v l s (l.halt s n err).loop (l.halt s n err).shared :=
  .leave rfl rfl rfl hr

theorem turn_cutOff (hr : v = .pass → ∀ c e p, l.phase ≠ .recording c e p) :
    Turn now v l s (l.cutOff s).loop (l.cutOff s).shared :=
  .leave rfl rfl rfl hr

end leave

/-- The step that takes the lease. -/
theorem acquire_turn {l : ViewLoop σ} {s : Shared σ} (h : l.phase = .acquiring) :
    Turn now v l s (l.acquire s now v).loop (l.acquire s now v).shared := by
  have hr : v = .pass → ∀ c e p, l.phase ≠ .recording c e p := by simp [h]
  unfold acquire
  split
  · exact l.turn_cutOff s hr
  · exact .leave rfl rfl rfl hr
  · exact l.turn_halt s _ _ hr
  · exact .begin h

/-- The step between two events. -/
theorem turn_turn {l : ViewLoop σ} {s : Shared σ} {c : Cycle} {p : Page}
    (h : l.phase = .between c p) :
    Turn now v l s (l.turn s now c p).loop (l.turn s now c p).shared := by
  have hr : v = .pass → ∀ c e p, l.phase ≠ .recording c e p := by simp [h]
  unfold turn
  split
  · rename_i hp
    split
    · exact .leave rfl rfl rfl hr
    · exact .more h hp
  · rename_i hp
    dsimp only
    split
    · exact .take h hp rfl
    · exact .take h hp (l.foldPhase_facing? now c _ _)

/-- The step that records a fold. It leaves it unrecorded only if its call does not pass. -/
theorem recording_turn {l : ViewLoop σ} {s : Shared σ} {c : Cycle} {e : Event} {p : Page}
    (h : l.phase = .recording c e p) :
    Turn now v l s (l.step now stop v s).loop (l.step now stop v s).shared := by
  unfold step
  rw [h]
  dsimp only
  split
  · rename_i hv
    exact l.turn_cutOff s fun hp => absurd hp (Verdict.ne_pass_of_run_eq_none hv)
  · rename_i hv
    exact l.turn_halt s _ _ fun hp => absurd hp (Verdict.ne_pass_of_run_eq_error hv)
  · rename_i hv
    cases Except.ok.inj (Verdict.eq_ok_of_run_eq_ok hv)
    exact .record h

/-- **Turns.** A step does nothing but what is listed. -/
theorem step_turn (l : ViewLoop σ) (s : Shared σ) :
    Turn now v l s (l.step now stop v s).loop (l.step now stop v s).shared := by
  by_cases hrec : ∃ c e p, l.phase = .recording c e p
  · obtain ⟨c, e, p, h⟩ := hrec
    exact recording_turn h
  have hr : v = .pass → ∀ c e p, l.phase ≠ .recording c e p := fun _ c e p h => hrec ⟨c, e, p, h⟩
  unfold step
  cases h : l.phase <;> dsimp only
  case ready =>
    split <;> exact .leave rfl rfl rfl hr
  case acquiring => exact acquire_turn h
  case checkingReset c =>
    split
    · exact l.turn_cutOff s hr
    · exact l.turn_halt s _ _ hr
    · rename_i hv
      exact .rebuild h (Except.ok.inj (Verdict.eq_ok_of_run_eq_ok hv))
    · rename_i hv
      exact .resume h (Except.ok.inj (Verdict.eq_ok_of_run_eq_ok hv))
  case clearing c =>
    split
    · exact l.turn_cutOff s hr
    · exact l.turn_halt s _ _ hr
    · rename_i hv
      cases Except.ok.inj (Verdict.eq_ok_of_run_eq_ok hv)
      exact .clear h
  case dropping c =>
    split
    · exact l.turn_cutOff s hr
    · exact l.turn_halt s _ _ hr
    · rename_i hv
      cases Except.ok.inj (Verdict.eq_ok_of_run_eq_ok hv)
      exact .drop h
  case locating c =>
    split
    · exact l.turn_cutOff s hr
    · exact l.turn_halt s _ _ hr
    · rename_i hv
      cases Except.ok.inj (Verdict.eq_ok_of_run_eq_ok hv)
      exact .locate h
  case paging c =>
    split
    · exact .leave rfl rfl rfl hr
    · split
      · exact l.turn_cutOff s hr
      · exact l.turn_halt s _ _ hr
      · rename_i hv
        cases Except.ok.inj (Verdict.eq_ok_of_run_eq_ok hv)
        exact .page h
  case between c p => exact turn_turn h
  case renewing c e p =>
    split
    · exact l.turn_cutOff s hr
    · exact l.turn_halt s _ _ hr
    · exact .keep (by rw [h]; rfl) (l.foldPhase_facing? now _ e p)
  case waiting wake c e p =>
    have hf : l.phase.facing? = some (e, p) := by rw [h]; rfl
    split
    · exact .keep hf rfl
    · exact .keep hf hf
  case folding c e p =>
    split
    · exact l.turn_cutOff s hr
    · exact .leave rfl rfl rfl hr
    · rename_i hv
      cases Except.ok.inj (Verdict.eq_ok_of_run_eq_ok hv)
      exact .read h
  case writing c e p f =>
    split
    · rename_i hf
      exact .spoil h hf rfl rfl rfl
    · rename_i hf
      exact .write h hf
  case recording c e p => exact absurd ⟨c, e, p, h⟩ hrec
  case ended o => exact .leave rfl rfl rfl hr
  case sleeping wake =>
    split
    · exact .leave rfl rfl rfl hr
    · exact .leave rfl rfl (by rw [h]; rfl) hr
  case stopped => exact .leave rfl rfl (by rw [h]; rfl) hr
  case crashed => exact .leave rfl rfl (by rw [h]; rfl) hr

end ViewLoop
end Chronicle
