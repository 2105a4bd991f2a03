import Chronicle.Command
import Chronicle.Proofs.Log.Numbering
/-!
# Replaying a stream

A replay takes events one after the other, so a longer history is replayed on top of a shorter one.
It counts what it replays: over a numbered log an aggregate that loads has the head of its stream as
its sequence, whichever of the events it followed.

* `Decider.replay_append`, `Decider.sequence_of_replay`, `Decider.pending_of_replay`;
* `Decider.exists_replay`: when a replay goes through;
* **`EventLog.Numbered.sequence_of_load`**: the sequence of a loaded aggregate;
* `Decider.prepare_of_replay`: the attempt that a command leads to.
-/

namespace Chronicle

namespace Decider

variable {κ σ ε : Type} {d : Decider κ σ ε} {a a' : Aggregate σ ε} {e : Event}
  {es es' : List Event}

theorem replay_append (h : d.replay a es = .ok a') : d.replay a (es ++ es') = d.replay a' es' := by
  induction es generalizing a with
  | nil =>
    cases h
    rfl
  | cons e es ih =>
    rw [List.cons_append, replay]
    rw [replay] at h
    cases he : d.replayEvent a e with
    | error err => simp [he] at h
    | ok a₁ =>
      rw [he] at h
      exact ih h

theorem replay_concat (h : d.replay a es = .ok a') : d.replay a (es ++ [e]) = d.replayEvent a' e := by
  rw [replay_append h, replay]
  cases d.replayEvent a' e <;> rfl

/-- What a replayed event leaves of an aggregate: its sequence is one further, and nothing is
pending that was not. -/
theorem replayEvent_ok (h : d.replayEvent a e = .ok a') :
    a'.sequence = a.sequence + 1 ∧ a'.sequence = e.sequence ∧ a'.pending = a.pending := by
  unfold replayEvent at h
  by_cases hid : e.stream.id ≠ d.stream.id
  · rw [if_pos hid] at h
    cases h
  · rw [if_neg hid] at h
    by_cases hseq : e.sequence ≠ a.sequence + 1
    · rw [if_pos hseq] at h
      cases h
    · rw [if_neg hseq] at h
      rw [Decidable.not_not] at hseq
      by_cases hf : d.follows e.tag = true
      · rw [if_pos hf] at h
        cases hd : d.codec.decode e with
        | error err => simp [hd] at h
        | ok event =>
          rw [hd] at h
          cases h
          exact ⟨hseq, rfl, rfl⟩
      · rw [if_neg hf] at h
        cases h
        exact ⟨hseq, rfl, rfl⟩

/-- A replayed event leaves the state as it is, or it can be read and the state follows it. -/
theorem state_of_replayEvent (h : d.replayEvent a e = .ok a') :
    a'.state = a.state ∨ ∃ fact, d.codec.decode e = .ok fact ∧ a'.state = d.apply fact a.state := by
  unfold replayEvent at h
  split at h
  · cases h
  split at h
  · cases h
  split at h
  · cases hd : d.codec.decode e with
    | error err =>
      rw [hd] at h
      cases h
    | ok fact =>
      rw [hd] at h
      cases h
      exact .inr ⟨fact, rfl, rfl⟩
  · cases h
    exact .inl rfl

/-- An event that comes next and is followed is taken in. -/
theorem replayEvent_of_follows {fact : ε} (id : e.stream.id = d.stream.id)
    (seq : e.sequence = a.sequence + 1) (hf : d.follows e.tag = true)
    (hd : d.codec.decode e = .ok fact) : d.replayEvent a e = .ok (d.absorb a e.sequence fact) := by
  unfold replayEvent
  rw [if_neg (not_not_intro id), if_neg (not_not_intro seq), if_pos hf, hd]

/-- An event that comes next and is not followed is counted. -/
theorem replayEvent_of_not_follows (id : e.stream.id = d.stream.id)
    (seq : e.sequence = a.sequence + 1) (hf : d.follows e.tag = false) :
    d.replayEvent a e = .ok { a with sequence := e.sequence } := by
  unfold replayEvent
  rw [if_neg (not_not_intro id), if_neg (not_not_intro seq), if_neg (by simp [hf])]

theorem sequence_of_replay (h : d.replay a es = .ok a') :
    a'.sequence = a.sequence + es.length := by
  induction es generalizing a with
  | nil =>
    cases h
    simp
  | cons e es ih =>
    rw [replay] at h
    cases he : d.replayEvent a e with
    | error err => simp [he] at h
    | ok a₁ =>
      rw [he] at h
      have h₁ := (replayEvent_ok he).1
      have h₂ := ih h
      rw [List.length_cons]
      omega

theorem pending_of_replay (h : d.replay a es = .ok a') : a'.pending = a.pending := by
  induction es generalizing a with
  | nil =>
    cases h
    rfl
  | cons e es ih =>
    rw [replay] at h
    cases he : d.replayEvent a e with
    | error err => simp [he] at h
    | ok a₁ =>
      rw [he] at h
      exact (ih h).trans (replayEvent_ok he).2.2

/-- A replay goes through if the events belong to the aggregate, come one after the other and decode
where they are followed. -/
theorem exists_replay (id : ∀ e ∈ es, e.stream.id = d.stream.id)
    (counts : CountsFrom a.sequence (es.map (·.sequence)))
    (reads : ∀ e ∈ es, d.follows e.tag = true → ∃ fact, d.codec.decode e = .ok fact) :
    ∃ a', d.replay a es = .ok a' := by
  induction es generalizing a with
  | nil => exact ⟨a, rfl⟩
  | cons e es ih =>
    obtain ⟨hseq, counts⟩ := counts
    have hid := id e List.mem_cons_self
    have hstep : ∃ a₁, d.replayEvent a e = .ok a₁ := by
      cases hf : d.follows e.tag with
      | false => exact ⟨_, replayEvent_of_not_follows hid hseq hf⟩
      | true =>
        obtain ⟨fact, hd⟩ := reads e List.mem_cons_self hf
        exact ⟨_, replayEvent_of_follows hid hseq hf hd⟩
    obtain ⟨a₁, ha₁⟩ := hstep
    rw [replay, ha₁]
    refine ih (fun e' he' => id e' (List.mem_cons_of_mem _ he')) ?_
      fun e' he' => reads e' (List.mem_cons_of_mem _ he')
    rwa [(replayEvent_ok ha₁).1]

/-- The draft of the one fact that answers a command. -/
def answerDraft (d : Decider κ σ ε) (sequence : Int) (fact : ε) (editor : String) (now : Instant) :
    Draft :=
  d.draft ⟨sequence + 1, fact, editor, now⟩

/-- A command is decided on the state that its history comes to, and its attempt appends the one
fact that answers it. -/
theorem prepare_of_replay {history : List Event} (h : d.replay d.fresh history = .ok a)
    (command : κ) (editor : String) (now : Instant) :
    d.prepare command editor now history =
      match d.answer command a.state with
      | .error e => .error e
      | .ok fact =>
        .ok ⟨d.stream, a.sequence, [d.answerDraft a.sequence fact editor now], a.sequence + 1⟩ := by
  have hp : a.pending = [] := pending_of_replay h
  unfold prepare perform
  rw [h]
  dsimp only
  cases d.answer command a.state with
  | error e => rfl
  | ok fact =>
    simp only [Except.map, attempt, drafts, settle, record, hp, Aggregate.nextSequence, absorb,
      answerDraft, List.nil_append, List.map_cons, List.map_nil, List.foldl_cons, List.foldl_nil,
      List.length_nil, Int.ofNat_zero, Int.add_zero]

/-- What is refused is the answer. -/
theorem prepare_eq_error_iff {history : List Event} (h : d.replay d.fresh history = .ok a)
    {command : κ} {editor : String} {now : Instant} {err : Error} :
    d.prepare command editor now history = .error err ↔ d.answer command a.state = .error err := by
  rw [prepare_of_replay h]
  cases d.answer command a.state <;> simp

end Decider

/-- **Sequences.** An aggregate that loads from a numbered log has the head of its stream as its
sequence. -/
theorem EventLog.Numbered.sequence_of_load {κ σ ε : Type} {d : Decider κ σ ε} {log : EventLog}
    {a : Aggregate σ ε} (n : log.Numbered) (h : d.load log = .ok a) :
    a.sequence = log.head d.stream.kind d.stream.id := by
  have hs := Decider.sequence_of_replay h
  rw [n.head_eq, ← n.history_eq]
  change a.sequence = 0 + _ at hs
  omega

end Chronicle
