import Chronicle.Proofs.Command.Refinement
import Chronicle.Proofs.Log.Appends
import Chronicle.Simulation.Request
/-!
# Aggregates in hand

An aggregate that was loaded takes calls. A call that is refused leaves it as it is; each fact that
answers one is pending, with the sequence that it is to have. A commit appends what is pending. It
takes in the facts as they are, with the sequences they were given, where a reload reads them back
from the log, with the sequences that the log gave them; the two come to the same aggregate.

* `Demand`, `Subject.heed`, `Subject.heedAll`: calls on an aggregate;
* `Subject.Provisional`: what calls leave of an aggregate;
* `EventLog.Takes`, `Subject.commit_eq`: everything that a commit can come to;
* **`Subject.replay_placed`**: what is read back from the log is what was taken in;
* `Request.commit_cases`: a commit among planned faults;
* **`Subject.commit_agrees`**.
-/

namespace Chronicle

/-- A call on an aggregate of a subject. -/
structure Demand (s : Subject) where
  request : s.Request
  editor : String
  time : Instant

namespace Subject

variable {s : Subject} {a b : Aggregate s.State s.Fact} {log : EventLog}

/-! ## Calls -/

/-- The aggregate after a call. A call that is refused leaves it as it is: a decider answers before
anything is recorded. -/
def heed (s : Subject) (a : Aggregate s.State s.Fact) (x : Demand s) :
    Aggregate s.State s.Fact :=
  match s.decider.perform a x.request x.editor x.time with
  | .error _ => a
  | .ok b => b

/-- The aggregate after many calls. -/
def heedAll (s : Subject) (a : Aggregate s.State s.Fact) (xs : List (Demand s)) :
    Aggregate s.State s.Fact :=
  xs.foldl s.heed a

/-- `b` is the aggregate `a` with facts pending, which have the next sequences in their order. -/
structure Provisional (a b : Aggregate s.State s.Fact) : Prop where
  sequence : b.sequence = a.sequence
  state : b.state = a.state
  counts : CountsFrom a.sequence (b.pending.map (·.sequence))

theorem provisional_of_pending_eq_nil (h : a.pending = []) : Provisional a a where
  sequence := rfl
  state := rfl
  counts := by
    rw [h]
    trivial

theorem perform_eq_error_iff {x : Demand s} {e : Error} :
    s.decider.perform b x.request x.editor x.time = .error e ↔
      s.decider.answer x.request b.state = .error e := by
  unfold Decider.perform
  cases s.decider.answer x.request b.state with
  | error e' => simp only [Except.error.injEq]
  | ok fact => exact ⟨nofun, nofun⟩

theorem Provisional.heed (h : Provisional a b) (x : Demand s) : Provisional a (s.heed b x) := by
  unfold Subject.heed Decider.perform
  cases s.decider.answer x.request b.state with
  | error e => exact h
  | ok fact =>
    refine ⟨h.sequence, h.state, ?_⟩
    change CountsFrom a.sequence ((b.pending ++ [_]).map Pending.sequence)
    rw [List.map_append]
    refine h.counts.append ⟨?_, trivial⟩
    change b.sequence + b.pending.length + 1 = _
    rw [h.sequence, List.length_map]

theorem Provisional.heedAll (h : Provisional a b) (xs : List (Demand s)) :
    Provisional a (s.heedAll b xs) := by
  induction xs generalizing b with
  | nil => exact h
  | cons x xs ih => exact ih (h.heed x)

/-! ## What is taken in and what is read back -/

theorem hear_deed (s : Subject) (fact : s.Fact) (state : s.State) :
    s.hear (s.deed fact) state = s.decider.apply fact state := by
  cases s <;> rfl

theorem draft_eq (s : Subject) (p : Pending s.Fact) :
    s.decider.draft p = (s.deed p.event).draft p.editor p.time := by
  cases s <;> rfl

/-- Facts with the next sequences come to the same aggregate, whether they are taken in as they are
or read back from the log. -/
theorem replay_placed (s : Subject) (a : Aggregate s.State s.Fact) (count : Int)
    (ps : List (Pending s.Fact)) (h : CountsFrom a.sequence (ps.map (·.sequence))) :
    s.decider.replay a (EventLog.place s.stream count a.sequence (ps.map s.decider.draft))
      = .ok (ps.foldl (fun a p => s.decider.absorb a p.sequence p.event) a) := by
  induction ps generalizing a count with
  | nil => rfl
  | cons p ps ih =>
    have hseq : p.sequence = a.sequence + 1 := h.1
    have hplaced : (s.decider.draft p).place s.stream (count + 1) (a.sequence + 1)
        = (s.deed p.event).event p.editor p.time (count + 1) (a.sequence + 1) := by
      rw [draft_eq, ← s.owner_deed p.event]
      rfl
    have hstep := s.replayEvent_deed a (s.deed p.event) (congrArg Stream.id (s.owner_deed p.event))
      p.editor p.time (count + 1)
    rw [hear_deed, ← hseq] at hstep
    rw [List.map_cons, EventLog.place, hplaced, Decider.replay, ← hseq, hstep, List.foldl_cons]
    refine ih (s.decider.absorb a p.sequence p.event) (count + 1) ?_
    change CountsFrom p.sequence _
    rw [hseq]
    exact h.2

end Subject

/-! ## Commits -/

/-- The log takes the payload of every fact. -/
def EventLog.Takes (log : EventLog) : Prop :=
  ∀ (d : Deed) (editor : String) (now : Instant),
    (d.draft editor now).validate log.schemas = .ok ()

theorem Draft.validateAll_eq_ok {schemas : Option SchemaSet} {drafts : List Draft}
    (h : ∀ d ∈ drafts, d.validate schemas = .ok ()) : Draft.validateAll schemas drafts = .ok () := by
  induction drafts with
  | nil => rfl
  | cons d rest ih =>
    rw [validateAll, h d List.mem_cons_self]
    exact ih fun d' hd => h d' (List.mem_cons_of_mem _ hd)

namespace EventLog

variable {log : EventLog}

theorem Takes.congr {log' : EventLog} (h : log.Takes) (schemas : log'.schemas = log.schemas) :
    log'.Takes := by
  unfold Takes
  rw [schemas]
  exact h

/-- A log that checks nothing takes every fact, and so does one that checks by the schemas of the
two contexts. -/
theorem takes_of_schemas (h : log.schemas = none ∨ log.schemas = some contexts) : log.Takes := by
  intro d editor now
  have htag : ¬Text.allBlank (d.draft editor now).tag = true := Bool.eq_false_iff.1 d.allBlank_tag
  unfold Draft.validate
  rcases h with h | h <;> rw [if_neg htag, h]
  exact d.check_payload

end EventLog

namespace Subject

variable {s : Subject} {a b : Aggregate s.State s.Fact} {log : EventLog}

/-- All that an append can find wrong with pending facts is the identifier of their stream. -/
theorem validate_drafts (takes : log.Takes) (b : Aggregate s.State s.Fact) :
    validate log.schemas s.stream (s.decider.drafts b) =
      if Text.allBlank s.stream.id then .error (.violation (.blank "aggregate id")) else .ok () := by
  obtain ⟨o, ho⟩ := s.exists_owner
  have hkind : Text.allBlank s.stream.kind = false := ho ▸ Deed.allBlank_kind o
  have howner : s.stream.owner = s.stream.id := by
    rw [ho]
    cases o <;> rfl
  have hall : Draft.validateAll log.schemas (s.decider.drafts b) = .ok () := by
    refine Draft.validateAll_eq_ok fun d hd => ?_
    obtain ⟨p, -, rfl⟩ := List.mem_map.1 hd
    rw [draft_eq]
    exact takes _ _ _
  unfold validate
  rw [hkind, howner, hall, if_neg Bool.false_ne_true]
  split <;> rfl

/-- The events that the pending facts become. -/
def placed (s : Subject) (log : EventLog) (b : Aggregate s.State s.Fact) : List Event :=
  EventLog.place s.stream log.events.length b.sequence (s.decider.drafts b)

/-- An append of pending facts is refused if the identifier is blank or the stream has moved on. -/
theorem append_drafts (takes : log.Takes) (h : b.pending ≠ []) :
    log.append s.stream b.sequence (s.decider.drafts b) =
      if Text.allBlank s.stream.id then .error (.violation (.blank "aggregate id"))
      else if log.head s.stream.kind s.stream.id = b.sequence then
        .ok (s.placed log b, { log with events := log.events ++ s.placed log b })
      else .error (.conflict s.stream.id b.sequence (log.head s.stream.kind s.stream.id)) := by
  have hdrafts : ¬(s.decider.drafts b).isEmpty = true := by
    rwa [List.isEmpty_iff, Decider.drafts, List.map_eq_nil_iff]
  unfold EventLog.append
  rw [validate_drafts takes, if_neg hdrafts]
  by_cases hb : Text.allBlank s.stream.id = true
  · rw [if_pos hb, if_pos hb]
  · rw [if_neg hb, if_neg hb]
    rfl

/-- **Commits.** A commit of nothing does nothing. Else it is refused if the identifier is blank or
the stream has moved on, and leaves the facts behind the log and taken in. -/
theorem commit_eq (takes : log.Takes) (b : Aggregate s.State s.Fact) :
    s.decider.commit log b =
      if b.pending = [] then .ok ([], log, b)
      else if Text.allBlank s.stream.id then .error (.violation (.blank "aggregate id"))
      else if log.head s.stream.kind s.stream.id = b.sequence then
        .ok (s.placed log b, { log with events := log.events ++ s.placed log b }, s.decider.settle b)
      else .error (.conflict s.stream.id b.sequence (log.head s.stream.kind s.stream.id)) := by
  unfold Decider.commit
  by_cases hp : b.pending = []
  · rw [if_pos (List.isEmpty_iff.2 hp), if_pos hp]
  · have happend : log.append s.decider.stream b.sequence (s.decider.drafts b) = _ :=
      append_drafts takes hp
    rw [if_neg (by rwa [List.isEmpty_iff]), if_neg hp, happend]
    by_cases hb : Text.allBlank s.stream.id = true
    · rw [if_pos hb, if_pos hb]
    · rw [if_neg hb, if_neg hb]
      by_cases hhead : log.head s.stream.kind s.stream.id = b.sequence
      · rw [if_pos hhead, if_pos hhead]
      · rw [if_neg hhead, if_neg hhead]

/-! ## Commits and reloads -/

theorem pending_settle (b : Aggregate s.State s.Fact) : (s.decider.settle b).pending = [] := by
  have hfold (ps : List (Pending s.Fact)) (a : Aggregate s.State s.Fact) :
      (ps.foldl (fun a p => s.decider.absorb a p.sequence p.event) a).pending = a.pending := by
    induction ps generalizing a with
    | nil => rfl
    | cons p ps ih => exact ih _
  exact hfold b.pending _

/-- The log gives pending facts the sequences that they have. -/
theorem Provisional.sequence_placed (h : Provisional a b) (log : EventLog) :
    (s.placed log b).map (·.sequence) = b.pending.map (·.sequence) := by
  have hplaced : CountsFrom b.sequence ((s.placed log b).map (·.sequence)) :=
    EventLog.countsFrom_sequence_place
  have hlength : (s.placed log b).length = b.pending.length := by
    unfold placed
    rw [EventLog.place_eq_mapIdx, List.length_mapIdx, Decider.drafts, List.length_map]
  have hpending : CountsFrom b.sequence (b.pending.map (·.sequence)) := by
    rw [h.sequence]
    exact h.counts
  rw [hplaced.eq_map, hpending.eq_map, List.length_map, List.length_map, hlength]

/-- What a reload reads behind the log is what a commit takes in. -/
theorem Provisional.load_placed (h : Provisional a b) (n : log.Numbered) (fresh : a.pending = [])
    (ha : s.decider.load log = .ok a) :
    s.decider.load { log with events := log.events ++ s.placed log b }
      = .ok (s.decider.settle b) := by
  have hhead : log.head s.stream.kind s.stream.id = b.sequence := by
    rw [h.sequence]
    exact (n.sequence_of_load ha).symm
  have hhistory : ({ log with events := log.events ++ s.placed log b } : EventLog).history
      s.stream.kind s.stream.id = log.history s.stream.kind s.stream.id ++ s.placed log b := by
    have hnumbered : ({ log with events := log.events ++ s.placed log b } : EventLog).Numbered :=
      n.place (.inr hhead)
    rw [hnumbered.history_eq, n.history_eq]
    change List.filter _ (log.events ++ s.placed log b) = _
    rw [List.filter_append]
    exact congrArg _ EventLog.filter_place_self
  have hreplay : s.decider.replay s.decider.fresh (log.history s.stream.kind s.stream.id) = .ok a :=
    ha
  have hstart : ({ b with pending := [] } : Aggregate s.State s.Fact) = a := by
    obtain ⟨sequence, state, pending⟩ := a
    cases fresh
    cases h.sequence
    cases h.state
    rfl
  have hplaced := s.replay_placed a log.events.length b.pending h.counts
  unfold Decider.load
  change s.decider.replay _ (EventLog.history _ s.stream.kind s.stream.id) = _
  rw [hhistory, Decider.replay_append hreplay]
  unfold placed Decider.settle
  rw [hstart, h.sequence]
  exact hplaced

end Subject

/-! ## Commits among planned faults -/

/-- The log that an append meets: the log as it is, or as another writer leaves it that comes
first. -/
def Surroundings.Meets (su : Surroundings) (log : EventLog) : Prop :=
  log = su.shared.log ∨ ∃ stream drafts, su.shared.log.race stream drafts = .ok log

namespace Request

/-- One request after another, of which the second is made only if the first succeeds. -/
theorem run_bind {α β : Type} (r : Request α) (f : α → Request β) (su : Surroundings) :
    (r >>= f) su =
      match r su with
      | (.error e, su') => (.error e, su')
      | (.ok x, su') => f x su' := by
  change ExceptT.bindCont f (r su).1 (r su).2 = _
  rcases r su with ⟨e | x, su'⟩ <;> rfl

/-- An append, by what is planned for it. -/
theorem append_cases (stream : Stream) (expected : Int) (drafts : List Draft) (su : Surroundings) :
    ∃ log, su.Meets log ∧
      match append stream expected drafts su with
      | (.error _, su') => su'.shared = { su.shared with log := log }
      | (.ok stored, su') => log.append stream expected drafts = .ok (stored, su'.shared.log) := by
  have hshared : (su.take .append).2.shared = su.shared := rfl
  unfold append call
  generalize su.take .append = taken at hshared ⊢
  obtain ⟨f, su'⟩ := taken
  change su'.shared = su.shared at hshared
  cases f with
  | fail e => exact ⟨su.shared.log, .inl rfl, hshared⟩
  | pass | crash =>
    refine ⟨su.shared.log, .inl rfl, ?_⟩
    dsimp only
    rw [hshared]
    cases su.shared.log.append stream expected drafts with
    | error e => rfl
    | ok r => rfl
  | race other more =>
    cases hrace : su.shared.log.race other more with
    | error e =>
      refine ⟨su.shared.log, .inl rfl, ?_⟩
      simp only [hshared, hrace]
    | ok log =>
      refine ⟨log, .inr ⟨other, more, hrace⟩, ?_⟩
      simp only [hshared, hrace]
      cases log.append stream expected drafts with
      | error e => rfl
      | ok r => rfl

/-- **Commits that fail.** A commit in any surroundings is the commit on the log that it meets, or it
fails and changes nothing of what is stored. -/
theorem commit_cases (h : Holding) (su : Surroundings) :
    ∃ log, su.Meets log ∧
      match commit h su with
      | (.error _, su') => su'.shared = { su.shared with log := log }
      | (.ok (stored, h'), su') =>
        ∃ a, h' = ⟨h.subject, a⟩ ∧
          h.subject.decider.commit log h.aggregate = .ok (stored, su'.shared.log, a) := by
  by_cases hp : h.aggregate.pending.isEmpty = true
  · refine ⟨su.shared.log, .inl rfl, ?_⟩
    unfold commit
    rw [if_pos hp]
    refine ⟨h.aggregate, rfl, ?_⟩
    unfold Decider.commit
    rw [if_pos hp]
  · obtain ⟨log, hmeets, happend⟩ :=
      append_cases h.subject.stream h.aggregate.sequence h.drafts su
    refine ⟨log, hmeets, ?_⟩
    unfold commit
    rw [if_neg hp]
    rw [run_bind]
    generalize append h.subject.stream h.aggregate.sequence h.drafts su = appended at happend ⊢
    rcases appended with ⟨e | stored, su'⟩
    · exact happend
    · refine ⟨h.subject.decider.settle h.aggregate, rfl, ?_⟩
      change log.append h.subject.decider.stream _ (h.subject.decider.drafts h.aggregate) = _
        at happend
      unfold Decider.commit
      rw [if_neg hp, happend]

end Request

/-! ## Agreement -/

namespace Subject

variable {s : Subject} {a b : Aggregate s.State s.Fact} {loaded log : EventLog}

/-- `b` is the aggregate `a`, which was loaded from the log `loaded`, with facts pending, and the
log has become `log` since. -/
structure Agreement (s : Subject) (a b : Aggregate s.State s.Fact) (loaded log : EventLog) :
    Prop extends Provisional a b where
  /-- A call is refused exactly if the decider refuses it on the state that was loaded, whatever is
  pending, and with the same error. -/
  refused_iff : ∀ (x : Demand s) (e : Error),
    s.decider.perform b x.request x.editor x.time = .error e ↔
      s.decider.answer x.request a.state = .error e
  /-- A call that is refused leaves everything as it is, and what is pending with it. This is how
  `Subject.heed` is defined. -/
  refused : ∀ (x : Demand s) (e : Error),
    s.decider.perform b x.request x.editor x.time = .error e → s.heed b x = b
  /-- A commit fails exactly if something is pending and the identifier is blank or others have
  appended to the stream. -/
  fails_iff : (∃ e, s.decider.commit log b = .error e) ↔
    b.pending ≠ [] ∧ (Text.allBlank s.stream.id = true ∨
      log.ofStream s.stream.kind s.stream.id ≠ loaded.ofStream s.stream.kind s.stream.id)
  /-- What a commit stores has the sequences that it had, and nothing is pending then. -/
  lands : ∀ stored log' b', s.decider.commit log b = .ok (stored, log', b') →
    stored.map (·.sequence) = b.pending.map (·.sequence) ∧
      log'.events = log.events ++ stored ∧ b'.pending = []
  /-- Unless others have appended to the stream, the aggregate is then the one that a reload
  gives. -/
  reloads : ∀ stored log' b', s.decider.commit log b = .ok (stored, log', b') →
    log.ofStream s.stream.kind s.stream.id = loaded.ofStream s.stream.kind s.stream.id →
      s.decider.load log' = .ok b'
  /-- Whatever a commit fails of, it changes nothing of what is stored. -/
  unharmed : ∀ (su su' : Surroundings) (e : Error), Request.commit ⟨s, b⟩ su = (.error e, su') →
    ∃ met, su.Meets met ∧ su'.shared = { su.shared with log := met }

/-- The head of a stream is the sequence at which it was loaded exactly if nobody has appended to
it. -/
theorem head_eq_iff (n : loaded.Numbered) (n' : log.Numbered)
    (grown : loaded.events <+: log.events) (ha : s.decider.load loaded = .ok a) :
    log.head s.stream.kind s.stream.id = a.sequence ↔
      log.ofStream s.stream.kind s.stream.id = loaded.ofStream s.stream.kind s.stream.id := by
  have hseq : a.sequence = loaded.head s.stream.kind s.stream.id := n.sequence_of_load ha
  rw [hseq, n.head_eq, n'.head_eq]
  constructor
  · intro hlength
    have hgrown : loaded.ofStream s.stream.kind s.stream.id
        <+: log.ofStream s.stream.kind s.stream.id := grown.filter _
    exact (hgrown.eq_of_length (by omega)).symm
  · intro hstream
    rw [hstream]

theorem load_congr (n : loaded.Numbered) (n' : log.Numbered)
    (h : log.ofStream s.stream.kind s.stream.id = loaded.ofStream s.stream.kind s.stream.id) :
    s.decider.load log = s.decider.load loaded := by
  have hhistory : log.history s.stream.kind s.stream.id
      = loaded.history s.stream.kind s.stream.id := by
    rw [n.history_eq, n'.history_eq, h]
  exact congrArg (s.decider.replay s.decider.fresh) hhistory

theorem Provisional.eq_of_pending_eq_nil (h : Provisional a b) (fresh : a.pending = [])
    (none : b.pending = []) : b = a := by
  obtain ⟨sequence, state, pending⟩ := a
  cases fresh
  cases h.sequence
  cases h.state
  obtain ⟨sequence, state, pending⟩ := b
  cases none
  rfl

/-- An aggregate with facts pending agrees with the log that it is committed to. -/
theorem Provisional.agreement (hb : Provisional a b) (n : loaded.Numbered) (n' : log.Numbered)
    (grown : loaded.events <+: log.events) (takes : log.Takes)
    (ha : s.decider.load loaded = .ok a) : s.Agreement a b loaded log := by
  have fresh : a.pending = [] := Decider.pending_of_replay ha
  have hhead := head_eq_iff n n' grown ha
  rw [← hb.sequence] at hhead
  have hcommit := commit_eq takes b
  refine
    { toProvisional := hb
      refused_iff := ?refused_iff
      refused := ?refused
      fails_iff := ?fails_iff
      lands := ?lands
      reloads := ?reloads
      unharmed := ?unharmed }
  case refused_iff =>
    intro x e
    rw [perform_eq_error_iff, hb.state]
  case refused =>
    intro x e h
    unfold Subject.heed
    rw [h]
  case fails_iff =>
    rw [hcommit]
    by_cases hp : b.pending = []
    · rw [if_pos hp]
      exact ⟨nofun, fun h => absurd hp h.1⟩
    · rw [if_neg hp, Ne, Ne, ← hhead]
      by_cases hblank : Text.allBlank s.stream.id = true
      · rw [if_pos hblank]
        exact ⟨fun _ => ⟨hp, .inl hblank⟩, fun _ => ⟨_, rfl⟩⟩
      · rw [if_neg hblank]
        by_cases hmoved : log.head s.stream.kind s.stream.id = b.sequence
        · rw [if_pos hmoved]
          exact ⟨nofun, fun h => absurd hmoved (h.2.resolve_left hblank)⟩
        · rw [if_neg hmoved]
          exact ⟨fun _ => ⟨hp, .inr hmoved⟩, fun _ => ⟨_, rfl⟩⟩
  case lands =>
    intro stored log' b' h
    rw [hcommit] at h
    split at h
    · rename_i hp
      cases h
      exact ⟨by rw [hp]; rfl, (List.append_nil _).symm, hp⟩
    · split at h
      · cases h
      · split at h
        · cases h
          exact ⟨hb.sequence_placed log, rfl, pending_settle b⟩
        · cases h
  case reloads =>
    intro stored log' b' h hstream
    have hload : s.decider.load log = .ok a := (load_congr n n' hstream).trans ha
    rw [hcommit] at h
    split at h
    · rename_i hp
      cases h
      rw [hload, hb.eq_of_pending_eq_nil fresh hp]
    · split at h
      · cases h
      · split at h
        · cases h
          exact hb.load_placed n' fresh hload
        · cases h
  case unharmed =>
    intro su su' e h
    obtain ⟨met, hmet, hcase⟩ := Request.commit_cases ⟨s, b⟩ su
    rw [h] at hcase
    exact ⟨met, hmet, hcase⟩

/-- **Commits and reloads.** Behind any run of commands every subject loads. Whatever calls the
aggregate then takes and whatever others append meanwhile: a call is refused exactly if it is on the
state that was loaded, and leaves the aggregate as it is then; what is pending has the sequences that the log will give it; a commit fails only of a blank
identifier or because others have appended to the stream, and changes nothing then; a commit that
succeeds leaves nothing pending, and leaves the aggregate that a reload gives. -/
theorem commit_agrees {log : EventLog} (start : log.events = []) (takes : log.Takes)
    (errands : List Errand) (s : Subject) :
    ∃ a, s.decider.load (log.after errands) = .ok a ∧
      ∀ (calls : List (Demand s)) (others : List Attempt),
        s.Agreement a (s.heedAll a calls) (log.after errands) ((log.after errands).tried others) := by
  have hkept : (log.after errands).Kept := EventLog.kept_after start errands
  obtain ⟨a, ha, -⟩ := hkept.loads s
  refine ⟨a, ha, fun calls others => ?_⟩
  have hb : Provisional a (s.heedAll a calls) :=
    (provisional_of_pending_eq_nil (Decider.pending_of_replay ha)).heedAll calls
  have htakes : ((log.after errands).tried others).Takes :=
    takes.congr ((EventLog.schemas_tried _ others).trans (EventLog.schemas_after log errands))
  exact hb.agreement hkept.numbered (hkept.numbered.tried others)
    (EventLog.prefix_tried _ others) htakes ha

/-- Two calls that are answered before anything is committed. -/
def twoAdded : List (Demand (.lockout (.org "acme"))) :=
  [⟨.add ⟨5, true⟩, "admin", ⟨0⟩⟩, ⟨.add ⟨3, true⟩, "admin", ⟨1⟩⟩]

theorem commit_agrees_two_added :
    EventLog.fresh.events = [] ∧ EventLog.fresh.Takes ∧
      ∃ stored log' b', (lockout (.org "acme")).decider.commit EventLog.fresh
          ((lockout (.org "acme")).heedAll (lockout (.org "acme")).decider.fresh twoAdded)
            = .ok (stored, log', b') ∧
        stored.map (·.sequence) = [1, 2] ∧ (lockout (.org "acme")).decider.load log' = .ok b' := by
  have htakes : EventLog.fresh.Takes := EventLog.takes_of_schemas (.inr rfl)
  obtain ⟨a, ha, hagrees⟩ := commit_agrees rfl htakes [] (lockout (.org "acme"))
  have hload : (lockout (.org "acme")).decider.load EventLog.fresh = .ok a := ha
  rw [EventLog.load_of_events_eq_nil rfl] at hload
  cases hload
  have hagree := hagrees twoAdded []
  refine ⟨rfl, htakes, ?_⟩
  cases hc : (lockout (.org "acme")).decider.commit EventLog.fresh
      ((lockout (.org "acme")).heedAll (lockout (.org "acme")).decider.fresh twoAdded) with
  | error e =>
    obtain ⟨-, hblank | hmoved⟩ := hagree.fails_iff.1 ⟨e, hc⟩
    · exact absurd hblank (by decide)
    · exact absurd rfl hmoved
  | ok r =>
    obtain ⟨stored, log', b'⟩ := r
    exact ⟨stored, log', b', rfl, (hagree.lands _ _ _ hc).1, hagree.reloads _ _ _ hc rfl⟩

end Subject
end Chronicle
