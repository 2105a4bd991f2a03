import Mathlib.Data.List.Induction
import Mathlib.Data.Nat.Find
import Chronicle.Proofs.Aggregate.Replay
/-!
# What a replay accepts

A replay asks three things of an event: it belongs to the aggregate, it comes next, and it can be
read if it is followed. The first event of which one of them does not hold ends the replay, with the
first of the three that does not. If there is no such event, the state is the fold of the events
that are followed, whatever stands between them.

* `Decider.Fits`, `Decider.Spoils`: what is asked of the event at an index, and the error that it
  ends a replay with;
* `Decider.heard`, `Decider.hearing`: the followed events, and the state they lead to;
* `Decider.replay_of_fits`, `Decider.replay_of_spoils`: both ways that a replay can go;
* `Decider.Exact`, **`Subject.replay_exact`**: the acceptance and the result of every replay.
-/

namespace Chronicle

namespace Decider

variable {κ σ ε : Type} (d : Decider κ σ ε)

/-! ## What is asked of an event -/

/-- The event at index `i`, from zero, belongs to the aggregate, comes next, and can be read if it
is followed. -/
structure Fits (i : Nat) (e : Event) : Prop where
  own : e.stream.id = d.stream.id
  next : e.sequence = i + 1
  readable : d.follows e.tag = true → ∃ fact, d.codec.decode e = .ok fact

/-- The event at index `i` ends a replay with an error: it is a stray, or else it leaves a gap, or
else it is followed and cannot be read. -/
inductive Spoils (i : Nat) (e : Event) : Error → Prop where
  | stray (id : e.stream.id ≠ d.stream.id) :
      Spoils i e (.infrastructure (.strayEvent e.uuid e.stream.id d.stream.id))
  | gap (own : e.stream.id = d.stream.id) (sequence : e.sequence ≠ i + 1) :
      Spoils i e (.infrastructure (.sequenceGap e.stream.id (i + 1) e.sequence))
  | unreadable {err : Error} (own : e.stream.id = d.stream.id) (next : e.sequence = i + 1)
      (followed : d.follows e.tag = true) (read : d.codec.decode e = .error err) : Spoils i e err

/-- The events that are followed, each as its type and payload. -/
def heard (es : List Event) : List (String × Json) :=
  (es.filter fun e => d.follows e.tag).map fun e => (e.tag, e.payload)

/-- The state after an event of a type with a payload; one that cannot be read changes nothing. -/
def hearing (state : σ) (e : String × Json) : σ :=
  match d.codec.read e.1 e.2 with
  | .ok fact => d.apply fact state
  | .error _ => state

variable {d} {i : Nat} {e : Event} {es : List Event} {err : Error}
  {a : Aggregate σ ε}

/-- An event that does not fit is one that ends a replay with an error. -/
theorem not_fits_iff : ¬d.Fits i e ↔ ∃ err, d.Spoils i e err := by
  constructor
  · intro h
    by_cases own : e.stream.id = d.stream.id
    · by_cases next : e.sequence = i + 1
      · cases hd : d.codec.decode e with
        | ok fact => exact absurd ⟨own, next, fun _ => ⟨fact, hd⟩⟩ h
        | error err =>
          cases hf : d.follows e.tag with
          | true => exact ⟨err, .unreadable own next hf hd⟩
          | false => exact absurd ⟨own, next, fun h => by rw [hf] at h; cases h⟩ h
      · exact ⟨_, .gap own next⟩
    · exact ⟨_, .stray own⟩
  · rintro ⟨err, h⟩ fits
    cases h with
    | stray id => exact id fits.own
    | gap own sequence => exact sequence fits.next
    | unreadable own next followed read =>
      obtain ⟨fact, hd⟩ := fits.readable followed
      rw [read] at hd
      cases hd

/-! ## One event -/

theorem heard_concat (es : List Event) (e : Event) :
    d.heard (es ++ [e]) = d.heard es ++ d.heard [e] := by
  unfold heard
  rw [List.filter_append, List.map_append]

/-- An event that fits is taken in as far as it is followed. -/
theorem replayEvent_of_fits (h : d.Fits i e) (at_ : a.sequence = i) :
    d.replayEvent a e = .ok
      { a with sequence := i + 1, state := (d.heard [e]).foldl d.hearing a.state } := by
  have hseq : e.sequence = a.sequence + 1 := by rw [h.next, at_]
  cases hf : d.follows e.tag with
  | false =>
    have hheard : d.heard [e] = [] := by simp [heard, hf]
    rw [replayEvent_of_not_follows h.own hseq hf, hheard, h.next]
    rfl
  | true =>
    obtain ⟨fact, hd⟩ := h.readable hf
    have hheard : d.heard [e] = [(e.tag, e.payload)] := by simp [heard, hf]
    have hread : d.codec.read e.tag e.payload = .ok fact := hd
    rw [replayEvent_of_follows h.own hseq hf hd, hheard, h.next, absorb, List.foldl_cons, hearing,
      hread]
    rfl

/-- An event that spoils a replay ends it with its error. -/
theorem replayEvent_of_spoils (h : d.Spoils i e err) (at_ : a.sequence = i) :
    d.replayEvent a e = .error err := by
  unfold replayEvent
  cases h with
  | stray id => rw [if_pos id]
  | gap own sequence => rw [if_neg (not_not_intro own), at_, if_pos sequence]
  | unreadable own next followed read =>
    rw [if_neg (not_not_intro own), at_, if_neg (not_not_intro next), if_pos followed, read]

/-! ## A whole replay -/

/-- **Acceptance.** If every event fits, the replay counts them all and folds those that are
followed. -/
theorem replay_of_fits (h : ∀ i e, es[i]? = some e → d.Fits i e) :
    d.replay d.fresh es
      = .ok ⟨es.length, (d.heard es).foldl d.hearing d.initial, []⟩ := by
  induction es using List.reverseRecOn with
  | nil => rfl
  | append_singleton es e ih =>
    have hes := ih fun i e' he' => h i e' <| by
      rwa [List.getElem?_append_left (List.getElem?_eq_some_iff.1 he').1]
    have he : d.Fits es.length e := h _ _ List.getElem?_concat_length
    rw [replay_concat hes, replayEvent_of_fits he rfl, heard_concat, List.foldl_append,
      List.length_append]
    rfl

/-- **Refusal.** The first event that does not fit ends the replay with its error. -/
theorem replay_of_spoils (he : es[i]? = some e) (h : d.Spoils i e err)
    (before : ∀ j < i, ∀ e', es[j]? = some e' → d.Fits j e') :
    d.replay d.fresh es = .error err := by
  obtain ⟨hi, rfl⟩ := List.getElem?_eq_some_iff.1 he
  have hes : es = es.take i ++ es[i] :: es.drop (i + 1) := by simp
  have hlength : (es.take i).length = i := List.length_take_of_le (Nat.le_of_lt hi)
  have htake : d.replay d.fresh (es.take i) = _ := replay_of_fits fun j e' he' => by
    rw [List.getElem?_take] at he'
    split at he'
    · exact before j ‹_› e' he'
    · cases he'
  have hstop : d.replay d.fresh (es.take i ++ es[i] :: es.drop (i + 1)) = .error err := by
    rw [replay_append htake, replay, replayEvent_of_spoils h (by rw [hlength])]
  rwa [← hes] at hstop

/-- Either every event fits, or there is a first one that does not. -/
theorem exists_first (d : Decider κ σ ε) (es : List Event) :
    (∀ i e, es[i]? = some e → d.Fits i e) ∨
      ∃ i e err, es[i]? = some e ∧ d.Spoils i e err ∧
        ∀ j < i, ∀ e', es[j]? = some e' → d.Fits j e' := by
  classical
  by_cases h : ∃ i e, es[i]? = some e ∧ ¬d.Fits i e
  · right
    obtain ⟨e, he, hnot⟩ := Nat.find_spec h
    obtain ⟨err, herr⟩ := not_fits_iff.1 hnot
    refine ⟨Nat.find h, e, err, he, herr, fun j hj e' he' => ?_⟩
    by_contra hfits
    exact Nat.find_min h hj ⟨e', he', hfits⟩
  · left
    intro i e he
    by_contra hfits
    exact h ⟨i, e, he, hfits⟩

/-- What the replay of `es` on an aggregate without events comes to. -/
structure Exact (d : Decider κ σ ε) (es : List Event) : Prop where
  /-- It succeeds exactly if every event fits. -/
  accepted_iff : (∃ a, d.replay d.fresh es = .ok a) ↔ ∀ i e, es[i]? = some e → d.Fits i e
  /-- It counts every event, leaves nothing pending and folds the events that are followed. -/
  result : ∀ a, d.replay d.fresh es = .ok a →
    a.sequence = es.length ∧ a.pending = [] ∧ a.state = (d.heard es).foldl d.hearing d.initial
  /-- Two lists that succeed lead to the same state if the same is followed in both. -/
  alike : ∀ es' a a', d.replay d.fresh es = .ok a → d.replay d.fresh es' = .ok a' →
    d.heard es = d.heard es' → a.state = a'.state
  /-- It fails exactly with the error of the first event that does not fit. -/
  refused_iff : ∀ err, d.replay d.fresh es = .error err ↔
    ∃ i e, es[i]? = some e ∧ d.Spoils i e err ∧ ∀ j < i, ∀ e', es[j]? = some e' → d.Fits j e'

theorem fits_of_replay (h : d.replay d.fresh es = .ok a) :
    ∀ i e, es[i]? = some e → d.Fits i e := by
  rcases d.exists_first es with hfits | ⟨i, e, err, he, hspoils, hbefore⟩
  · exact hfits
  · rw [replay_of_spoils he hspoils hbefore] at h
    cases h

theorem replay_eq (h : d.replay d.fresh es = .ok a) :
    a = ⟨es.length, (d.heard es).foldl d.hearing d.initial, []⟩ := by
  rw [replay_of_fits (fits_of_replay h)] at h
  exact (Except.ok.inj h).symm

end Decider

/-- **Replays.** For every aggregate and every list of events: the replay succeeds exactly if every
event fits; it then counts them all and folds those that are followed, and depends on nothing else;
and it fails with the error of the first event that does not fit, which is asked first whether it
belongs to the aggregate, then whether it comes next, and then whether it can be read. -/
theorem Subject.replay_exact (s : Subject) (es : List Event) : s.decider.Exact es where
  accepted_iff := ⟨fun ⟨_, h⟩ => Decider.fits_of_replay h, fun h => ⟨_, Decider.replay_of_fits h⟩⟩
  result := by
    intro a h
    rw [Decider.replay_eq h]
    exact ⟨rfl, rfl, rfl⟩
  alike := by
    intro es' a a' h h' heard
    rw [Decider.replay_eq h, Decider.replay_eq h', heard]
  refused_iff := by
    intro err
    refine ⟨fun h => ?_, fun ⟨i, e, he, hspoils, hbefore⟩ =>
      Decider.replay_of_spoils he hspoils hbefore⟩
    rcases s.decider.exists_first es with hfits | ⟨i, e, err', he, hspoils, hbefore⟩
    · rw [Decider.replay_of_fits hfits] at h
      cases h
    · rw [Decider.replay_of_spoils he hspoils hbefore] at h
      cases h
      exact ⟨i, e, he, hspoils, hbefore⟩

end Chronicle
