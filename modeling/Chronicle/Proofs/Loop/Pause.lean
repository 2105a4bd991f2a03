import Mathlib.Data.List.DropRight
import Mathlib.Data.List.Induction
import Chronicle.Proofs.Loop.Stroke
/-!
# The pauses of a loop

A loop pauses between its cycles. While cycles end in outages of storage, one after the other, the
pauses double, starting from the cycle time, up to a ceiling that is never below the cycle time. Any
other outcome ends the streak. The longest duration does not get in the way of doubling, since no
ceiling is beyond it.

* `Outcome.isOutage`, `Backoff.streak`: what makes a streak, and how long it is;
* `Backoff.behind`, `Backoff.pause`: the pause behind outcomes;
* **`Backoff.nanos_pause`**: the length of a pause; `Backoff.Law`: what is said of it;
* `Pacer`: a loop with the outcomes that it has had;
* **`Pacer.paced_run`**: a loop pauses by the law.
-/

namespace Chronicle

/-! ## Lengths of time -/

namespace Duration

variable (d e : Duration)

theorem nanos_le_longest : d.nanos ≤ longest.nanos :=
  Nat.le_sub_one_of_lt d.bounded

@[simp] theorem nanos_max : (d.max e).nanos = Max.max d.nanos e.nanos := by
  unfold Duration.max
  split <;> omega

@[simp] theorem nanos_min : (d.min e).nanos = Min.min d.nanos e.nanos := by
  unfold Duration.min
  split <;> omega

theorem nanos_double : d.double.nanos = Min.min (2 * d.nanos) longest.nanos := by
  unfold double ofNanos
  split
  · rename_i h
    exact (Nat.min_eq_left (Nat.le_sub_one_of_lt h)).symm
  · rename_i h
    exact (Nat.min_eq_right ((Nat.sub_le _ _).trans (Nat.le_of_not_lt h))).symm

/-- Below a ceiling, a length of time that is too long to be doubled goes unnoticed. -/
theorem nanos_double_min : (d.double.min e).nanos = Min.min (2 * d.nanos) e.nanos := by
  have hceiling : e.nanos ≤ longest.nanos := e.nanos_le_longest
  rw [nanos_min, nanos_double]
  omega

end Duration

/-! ## Streaks of outages -/

/-- The cycle has ended in an outage of storage. -/
def Outcome.isOutage : Outcome → Bool
  | .halted _ _ (.infrastructure _) => true
  | _ => false

namespace Backoff

variable (cycle ceiling : Duration)

/-- What a loop remembers behind outcomes, the first one first. -/
def behind (os : List Outcome) : Backoff :=
  os.foldl (fun b o => (b.after cycle ceiling o).2) none

/-- The pause after the outcome `o`, which follows on `os`. -/
def pause (os : List Outcome) (o : Outcome) : Duration :=
  ((behind cycle ceiling os).after cycle ceiling o).1

/-- The number of outages that outcomes end with. -/
def streak (os : List Outcome) : Nat :=
  (os.rtakeWhile Outcome.isOutage).length

variable {cycle ceiling} {os : List Outcome} {o : Outcome} {b : Backoff}

theorem after_of_outage (h : o.isOutage = true) :
    b.after cycle ceiling o = (b.next cycle ceiling, some (b.next cycle ceiling)) := by
  match o, h with
  | .halted _ _ (.infrastructure _), _ => rfl

theorem after_of_not_outage (h : o.isOutage = false) :
    b.after cycle ceiling o = (cycle, none) := by
  match o with
  | .lockHeld => rfl
  | .caughtUp _ _ => rfl
  | .halted _ _ (.notFound _) => rfl
  | .halted _ _ (.conflict _ _ _) => rfl
  | .halted _ _ (.violation _) => rfl
  | .halted _ _ (.lockHeld _) => rfl
  | .halted _ _ (.infrastructure _) => cases h

theorem behind_concat :
    behind cycle ceiling (os ++ [o]) = ((behind cycle ceiling os).after cycle ceiling o).2 := by
  unfold behind
  rw [List.foldl_append]
  rfl

theorem streak_concat :
    streak (os ++ [o]) = if o.isOutage then streak os + 1 else 0 := by
  unfold streak
  rw [List.rtakeWhile_concat]
  split
  · rw [List.length_append, List.length_singleton]
  · rfl

/-! ## The length of a pause -/

/-- The pause that is `n` doublings away from the start of a streak. -/
def target (cycle ceiling : Duration) (n : Nat) : Nat :=
  max cycle.nanos (min (2 ^ n * cycle.nanos) ceiling.nanos)

theorem target_zero : target cycle ceiling 0 = cycle.nanos := by
  unfold target
  omega

/-- One doubling. Behind a pause at the ceiling, or at a cycle time beyond it, nothing grows. -/
theorem target_succ (n : Nat) :
    target cycle ceiling (n + 1)
      = max (min (2 * target cycle ceiling n) ceiling.nanos) cycle.nanos := by
  have hpow : 2 ^ (n + 1) * cycle.nanos = 2 * (2 ^ n * cycle.nanos) := by
    rw [Nat.pow_succ', Nat.mul_assoc]
  have hgrown : cycle.nanos ≤ 2 ^ n * cycle.nanos :=
    Nat.le_mul_of_pos_left _ (Nat.two_pow_pos n)
  unfold target
  rw [hpow]
  omega

theorem target_mono (n : Nat) : target cycle ceiling n ≤ target cycle ceiling (n + 1) := by
  have hgrown : 2 ^ n * cycle.nanos ≤ 2 ^ (n + 1) * cycle.nanos :=
    Nat.mul_le_mul_right _ (Nat.pow_le_pow_right Nat.two_pos (Nat.le_succ n))
  unfold target
  omega

/-- The pause that an outage brings behind outcomes. The induction is on these, from their end. -/
theorem nanos_next (cycle ceiling : Duration) (os : List Outcome) :
    ((behind cycle ceiling os).next cycle ceiling).nanos
      = target cycle ceiling (streak os) := by
  induction os using List.reverseRecOn with
  | nil => exact target_zero.symm
  | append_singleton os o ih =>
    rw [streak_concat, behind_concat]
    cases ho : o.isOutage with
    | false =>
      rw [after_of_not_outage ho]
      exact target_zero.symm
    | true =>
      rw [after_of_outage ho, if_pos rfl, target_succ, ← ih, ← Duration.nanos_double_min,
        ← Duration.nanos_max]
      rfl

/-- **The length of a pause.** The first outage of a streak is followed by a pause of the cycle time,
and each further one by a pause that is twice as long, up to the ceiling. -/
theorem nanos_pause (cycle ceiling : Duration) (os : List Outcome) (o : Outcome) :
    (pause cycle ceiling os o).nanos
      = if o.isOutage then target cycle ceiling (streak os) else cycle.nanos := by
  unfold pause
  cases ho : o.isOutage with
  | false =>
    rw [after_of_not_outage ho]
    rfl
  | true =>
    rw [after_of_outage ho, if_pos rfl]
    exact nanos_next cycle ceiling os

/-- The law of the pause after the outcome `o`, which follows on `os`. -/
structure Law (cycle ceiling : Duration) (os : List Outcome) (o : Outcome) : Prop where
  /-- After an outage the pause is the cycle time, doubled once for each outage right before it and
  cut at the ceiling, and at least the cycle time. -/
  outage : o.isOutage = true → (pause cycle ceiling os o).nanos
    = max cycle.nanos (min (2 ^ streak os * cycle.nanos) ceiling.nanos)
  /-- Any other outcome is followed by the cycle time. -/
  other : o.isOutage = false → (pause cycle ceiling os o).nanos = cycle.nanos
  cycle_le : cycle.nanos ≤ (pause cycle ceiling os o).nanos
  le_ceiling : (pause cycle ceiling os o).nanos ≤ max cycle.nanos ceiling.nanos
  /-- Pauses never get shorter in a streak. -/
  rises : o.isOutage = true → ∀ o', o'.isOutage = true →
    (pause cycle ceiling os o).nanos ≤ (pause cycle ceiling (os ++ [o]) o').nanos
  /-- A streak starts over behind any other outcome. -/
  restarts : o.isOutage = false → ∀ o',
    streak (os ++ [o]) = 0 ∧ (pause cycle ceiling (os ++ [o]) o').nanos = cycle.nanos

theorem law (cycle ceiling : Duration) (os : List Outcome) (o : Outcome) :
    Law cycle ceiling os o := by
  have hpause := nanos_pause cycle ceiling os o
  have hnext := nanos_pause cycle ceiling (os ++ [o])
  rw [streak_concat] at hnext
  constructor
  case outage =>
    intro ho
    rw [hpause, if_pos ho]
    rfl
  case other =>
    intro ho
    rw [hpause, ho]
    rfl
  case cycle_le =>
    rw [hpause]
    unfold target
    split <;> omega
  case le_ceiling =>
    rw [hpause]
    unfold target
    split <;> omega
  case rises =>
    intro ho o' ho'
    rw [hpause, hnext, if_pos ho, if_pos ho', if_pos ho]
    exact target_mono _
  case restarts =>
    intro ho o'
    rw [hnext, streak_concat, ho]
    refine ⟨rfl, ?_⟩
    split
    · exact target_zero
    · rfl

/-- A cycle time of one second and a ceiling of five. -/
example : let down : Outcome := .halted 0 0 (.infrastructure .connectionRefused)
    (List.range 5).map (fun n =>
      (pause (.ofSecs 1) (.ofSecs 5) (.lockHeld :: List.replicate n down) down).secs)
      = [1, 2, 4, 5, 5] := by
  decide +kernel

end Backoff

/-! ## A loop over its cycles -/

/-- A step changes the mark and the phase of a loop and nothing else, unless a cycle has ended. -/
theorem ViewLoop.exists_stepAt {σ : Type} {l : ViewLoop σ} (h : l.phase.outcome? = none)
    (m : Moment σ) :
    ∃ mark phase, (l.stepAt m).loop = { l with mark := mark, phase := phase } := by
  unfold stepAt step
  cases hp : l.phase
  case ended o =>
    rw [hp] at h
    cases h
  case ready | sleeping | waiting =>
    dsimp only
    split <;> exact ⟨_, _, rfl⟩
  case acquiring =>
    unfold acquire
    dsimp only
    split <;> exact ⟨_, _, rfl⟩
  case between c p =>
    unfold turn
    dsimp only
    split
    · split <;> exact ⟨_, _, rfl⟩
    · split <;> exact ⟨_, _, rfl⟩
  case paging =>
    dsimp only
    split
    · exact ⟨_, _, rfl⟩
    · split <;> exact ⟨_, _, rfl⟩
  case stopped | crashed => exact ⟨_, _, rfl⟩
  all_goals
    dsimp only
    split <;> exact ⟨_, _, rfl⟩

/-- A loop, and the outcomes of the cycles that it has paused behind, the first one first. -/
structure Pacer (σ : Type) where
  loop : ViewLoop σ
  outcomes : List Outcome := []

namespace Pacer

variable {σ : Type}

/-- What may happen to a loop. -/
inductive Act (σ : Type) where
  /-- It takes a step. Before the step everything that loops share may have changed. -/
  | step (m : Moment σ)
  /-- A signal ends its pause. -/
  | rouse

/-- A loop that has just been created. -/
def start (config : LoopConfig) (handler : Handler σ) : Pacer σ where
  loop := { config := config, handler := handler }

def act (p : Pacer σ) : Act σ → Pacer σ
  | .step m => ⟨(p.loop.stepAt m).loop, p.outcomes ++ p.loop.phase.outcome?.toList⟩
  | .rouse =>
    match p.loop.phase with
    | .sleeping _ => { p with loop := { p.loop with phase := .ready } }
    | _ => p

def run (p : Pacer σ) (acts : List (Act σ)) : Pacer σ := acts.foldl act p

/-- The loop has the settings it was created with, and remembers the streak that it is in. -/
structure Paced (config : LoopConfig) (handler : Handler σ) (p : Pacer σ) : Prop where
  config_eq : p.loop.config = config
  handler_eq : p.loop.handler = handler
  backoff_eq : p.loop.backoff = Backoff.behind handler.cycle config.maxBackoff p.outcomes

variable {config : LoopConfig} {handler : Handler σ} {p : Pacer σ}

/-- The end of a cycle: the loop pauses, and remembers the streak. -/
theorem Paced.stepAt_ended (h : p.Paced config handler) {o : Outcome}
    (ended : p.loop.phase = .ended o) (m : Moment σ) :
    (p.loop.stepAt m).loop =
      { p.loop with
        backoff := Backoff.behind handler.cycle config.maxBackoff (p.outcomes ++ [o])
        phase := .sleeping (m.now.add
          (Backoff.pause handler.cycle config.maxBackoff p.outcomes o)) } := by
  unfold ViewLoop.stepAt ViewLoop.step
  rw [ended, Backoff.behind_concat]
  unfold Backoff.pause
  rw [← h.backoff_eq, ← h.config_eq, ← h.handler_eq]
  rfl

theorem Paced.act (h : p.Paced config handler) (a : Act σ) : (p.act a).Paced config handler := by
  cases a with
  | step m =>
    cases ho : p.loop.phase.outcome? with
    | none =>
      obtain ⟨mark, phase, hstep⟩ := ViewLoop.exists_stepAt ho m
      have hact : p.act (.step m) = { p with loop := { p.loop with mark := mark, phase := phase } } := by
        change Pacer.mk _ _ = _
        rw [hstep, ho]
        simp
      rw [hact]
      exact ⟨h.config_eq, h.handler_eq, h.backoff_eq⟩
    | some o =>
      have hstep := h.stepAt_ended (Phase.eq_ended_of_outcome? ho) m
      change (Pacer.mk _ _).Paced config handler
      rw [hstep, ho]
      exact ⟨h.config_eq, h.handler_eq, rfl⟩
  | rouse =>
    unfold Pacer.act
    dsimp only
    split
    · exact ⟨h.config_eq, h.handler_eq, h.backoff_eq⟩
    · exact h

theorem Paced.run (h : p.Paced config handler) (acts : List (Act σ)) :
    (p.run acts).Paced config handler := by
  induction acts generalizing p with
  | nil => exact h
  | cons a acts ih => exact ih (h.act a)

/-- **Pauses.** Whatever cycle time a loop has and whatever ceiling, and whatever the outcomes of its
cycles are, the pause after the `k`-th outage in a row is the cycle time, doubled `k - 1` times, cut
at the ceiling and never below the cycle time; after any other outcome it is the cycle time. So in
any run of a loop, whatever happens to what loops share and wherever a signal ends a pause, the loop
sleeps for as long as the law says of the outcomes that it has had. -/
theorem paced_run (config : LoopConfig) (handler : Handler σ) (acts : List (Act σ)) :
    (∀ cycle ceiling os o, Backoff.Law cycle ceiling os o) ∧
    let p := (start config handler).run acts
    ∀ o m, p.loop.phase = .ended o →
      (p.loop.stepAt m).loop.phase = .sleeping (m.now.add
        (Backoff.pause handler.cycle config.maxBackoff p.outcomes o)) := by
  refine ⟨Backoff.law, fun o m ended => ?_⟩
  have hstart : (start config handler).Paced config handler := ⟨rfl, rfl, rfl⟩
  rw [(hstart.run acts).stepAt_ended ended]

end Pacer
end Chronicle
