import Chronicle.Proofs.View.Entry
/-!
# Views agree with aggregates

A command that is carried out adds one event, which is about the slot of the command and about no
other slot of its stream. Both the aggregate and the view of the slot take it in, so behind every
part of a stream each row shows what the aggregate holds.

* `EventLog.entry`: what the aggregate of a slot holds;
* `Entered`: everything that a command adds to a log;
* `Tables.enter`: the views behind one more event;
* `EventLog.Agrees`: every row of a stream agrees with its aggregate;
* **`Slot.shown_after`**: rows and aggregates behind every part of a stream.
-/

namespace Chronicle

namespace Slot

/-- The view of a slot and the key under which it shows the slot. -/
def place (x : Slot) : (v : ViewKind) × v.Key := ⟨x.subject.view, x.key⟩

/-- On one stream no two slots are shown in the same place. -/
theorem eq_of_place {x y : Slot} (h : y.place = x.place)
    (hs : y.subject.stream = x.subject.stream) : y = x := by
  have hview : y.subject.view = x.subject.view := congrArg Sigma.fst h
  have hkey := (Sigma.mk.inj h).2
  cases x with
  | lockout o =>
    cases y with
    | lockout o' => exact congrArg lockout (Owner.eq_of_stream_eq hs)
    | _ => cases hview
  | orgIam o =>
    cases y with
    | orgIam o' => exact congrArg orgIam (Owner.eq_of_stream_eq hs)
    | _ => cases hview
  | mailText i k =>
    cases y with
    | mailText i' k' =>
      obtain ⟨rfl, rfl⟩ := Prod.mk.inj (eq_of_heq hkey)
      rfl
    | _ => cases hview
  | member i u =>
    cases y with
    | member i' u' =>
      obtain ⟨rfl, rfl⟩ := Prod.mk.inj (eq_of_heq hkey)
      rfl
    | _ => cases hview

end Slot

/-- A command is a request to the subject of its slot. -/
theorem Command.exists_request (c : Command) :
    ∃ r : c.slot.subject.Request, c = ⟨c.slot.subject, r⟩ := by
  obtain ⟨subject, r⟩ := c
  cases subject <;> exact ⟨r, rfl⟩

/-! ## What a command adds -/

/-- What the aggregate of a slot holds, loaded from a log. -/
def EventLog.entry (log : EventLog) (x : Slot) : Option x.Content :=
  match x.subject.decider.load log with
  | .ok a => x.held a.state
  | .error _ => none

theorem EventLog.entry_of_load {log : EventLog} {x : Slot}
    {a : Aggregate x.subject.State x.subject.Fact} (h : x.subject.decider.load log = .ok a) :
    log.entry x = x.held a.state := by
  unfold entry
  rw [h]

theorem EventLog.Numbered.entry_eq {log : EventLog} (n : log.Numbered) (x : Slot) :
    log.entry x =
      match x.subject.decider.replay x.subject.decider.fresh
          (log.ofStream x.subject.stream.kind x.subject.stream.id) with
      | .ok a => x.held a.state
      | .error _ => none := by
  rw [← n.history_eq]
  rfl

/-- A log with one more event, which is about the slot `x`. -/
structure Entered (log : EventLog) (x : Slot) (e : Event) (log' : EventLog) : Prop where
  events : log'.events = log.events ++ [e]
  stream : e.stream = x.subject.stream
  /-- The view of the slot follows the event, and no other view does. -/
  admits : ∀ v : ViewKind, v.query.admits e = true ↔ v = x.subject.view
  revises : ∃ r, x.revision? e = some r ∧ r.Fits (log.entry x)
  other : ∀ y, y ≠ x → y.revision? e = none
  entry : ∀ y, log'.entry y = Revision.after (log.entry y) (y.revision? e)
  newer : ∀ e' ∈ log.events, e'.stream = e.stream → e'.sequence < e.sequence

namespace EventLog

variable {log : EventLog}

/-- No event of a stream has gone beyond the head. -/
theorem Numbered.sequence_le_head (n : log.Numbered) {e : Event} (h : e ∈ log.events) :
    e.sequence ≤ log.head e.stream.kind e.stream.id := by
  have hmem : e ∈ log.ofStream e.stream.kind e.stream.id :=
    List.mem_filter.2 ⟨h, by simp [onStream]⟩
  have hcount := (n.sequence _ _).mem (List.mem_map_of_mem hmem)
  rw [List.length_map, ← n.head_eq] at hcount
  omega

section record

variable {x : Slot} {r : x.subject.Request} {a : Aggregate x.subject.State x.subject.Fact}
  {fact : x.subject.Fact} {editor : String} {now : Instant}

/-- What the aggregates hold once an answer is recorded. -/
theorem Kept.entry_record (h : log.Kept) (hx : Command.slot ⟨x.subject, r⟩ = x)
    (ha : x.subject.decider.load log = .ok a)
    (hanswer : x.subject.decider.answer r a.state = .ok fact) (position sequence : Int) (y : Slot) :
    (log.record (x.subject.deed fact) editor now).entry y = Revision.after (log.entry y)
      (y.revision? ((x.subject.deed fact).event editor now position sequence)) := by
  have howner : (x.subject.deed fact).owner.stream = x.subject.stream := x.subject.owner_deed fact
  obtain ⟨b, hb, -⟩ := h.loads y.subject
  by_cases hs : (x.subject.deed fact).owner.stream = y.subject.stream
  · -- an answer fits the slot of its command, and mentions no other slot on this stream
    have fits : ∀ revision, y.mention? (x.subject.deed fact) = some revision →
        revision.Fits (y.held b.state) := by
      intro revision hrevision
      by_cases hy : y = x
      · subst hy
        cases hb.symm.trans ha
        obtain ⟨revision', hr', hfits⟩ := Slot.mention?_answer hx hanswer
        cases hr'.symm.trans hrevision
        exact hfits
      · have hnone := Slot.mention?_answer_of_ne (x := y) (c := ⟨x.subject, r⟩) hanswer
          (by rwa [hx]) (hs.symm.trans howner)
        cases hnone.symm.trans hrevision
    rw [entry_of_load (h.numbered.load_record hb (congrArg Stream.kind hs)
      (congrArg Stream.id hs)), entry_of_load hb, Slot.revision?_event hs]
    exact Slot.held_hear fits
  · have hne : ¬((x.subject.deed fact).owner.stream.kind = y.subject.stream.kind
        ∧ (x.subject.deed fact).owner.stream.id = y.subject.stream.id) := by
      rintro ⟨hkind, hid⟩
      rw [howner] at hkind hid
      exact hs (howner.trans (Subject.stream_eq hkind hid))
    have hload : y.subject.decider.load (log.record (x.subject.deed fact) editor now) = .ok b :=
      (h.numbered.load_record_of_ne hne).trans hb
    rw [entry_of_load hload, entry_of_load hb, Slot.revision?_event_of_ne hs]
    rfl

/-- An answer that is recorded is about the slot of its command. -/
theorem Kept.entered (h : log.Kept) (hx : Command.slot ⟨x.subject, r⟩ = x)
    (ha : x.subject.decider.load log = .ok a)
    (hanswer : x.subject.decider.answer r a.state = .ok fact) :
    Entered log x
      ((x.subject.deed fact).event editor now (log.events.length + 1)
        (log.head x.subject.stream.kind x.subject.stream.id + 1))
      (log.record (x.subject.deed fact) editor now) := by
  have hs : (x.subject.deed fact).owner.stream = x.subject.stream := x.subject.owner_deed fact
  have own : x.subject.Own fact := Command.own_of_answer (c := ⟨x.subject, r⟩) hanswer
  constructor
  case events =>
    rw [← hs]
    rfl
  case stream => exact hs
  case admits => exact fun v => ViewKind.admits_deed own (by omega)
  case revises =>
    obtain ⟨revision, hr, fits⟩ := Slot.mention?_answer hx hanswer
    exact ⟨revision, (Slot.revision?_event hs).trans hr, by rwa [entry_of_load ha]⟩
  case other =>
    intro y hy
    by_cases hy' : (x.subject.deed fact).owner.stream = y.subject.stream
    · rw [Slot.revision?_event hy']
      exact Slot.mention?_answer_of_ne (c := ⟨x.subject, r⟩) hanswer (by rwa [hx])
        (hy'.symm.trans hs)
    · exact Slot.revision?_event_of_ne hy'
  case entry => exact fun y => h.entry_record hx ha hanswer _ _ y
  case newer =>
    intro e' he' hstream
    have hle := h.numbered.sequence_le_head he'
    rw [show e'.stream = x.subject.stream from hstream.trans hs] at hle
    exact Int.lt_add_one_iff.2 hle

end record

/-- **Steps.** A command leaves a log as it is, or adds one event about its slot. -/
theorem Kept.land_entered (h : log.Kept) (c : Command) (editor : String) (now : Instant) :
    c.land editor now log = log ∨ ∃ e, Entered log c.slot e (c.land editor now log) := by
  rcases h.land_cases c editor now with hl | ⟨a, fact, ha, -, hanswer, -, hl⟩
  · exact .inl hl
  · rw [hl]
    obtain ⟨r, hr⟩ := c.exists_request
    generalize hx : c.slot = x at r hr
    subst hr
    exact .inr ⟨_, h.entered hx ha hanswer⟩

end EventLog

/-! ## What the views make of it -/

/-- The rows of all views. -/
abbrev Tables : Type := (v : ViewKind) → Table v.Key v.Entry

namespace Tables

/-- The rows of a view are the fold of the events that it follows. -/
def Follows (T : Tables) (v : ViewKind) (es : List Event) : Prop :=
  v.projection.rowsAfter (es.filter v.query.admits) = .ok (T v)

/-- The row in a place. -/
def look (T : Tables) (p : (v : ViewKind) × v.Key) : Option p.1.Entry := (T p.1).get? p.2

variable {T : Tables} {v : ViewKind} {es : List Event} {log log' : EventLog} {x : Slot} {e : Event}

theorem follows_nil (v : ViewKind) : Follows (fun _ => Index.empty) v [] := rfl

theorem Follows.concat_of_ne (h : T.Follows v es) (ent : Entered log x e log')
    (hv : v ≠ x.subject.view) : T.Follows v (es ++ [e]) := by
  have hadmits : v.query.admits e = false := by
    rw [Bool.eq_false_iff]
    exact fun ha => hv ((ent.admits v).1 ha)
  unfold Follows
  rwa [List.filter_append, List.filter_singleton, hadmits, cond_false, List.append_nil]

/-- **Rows.** The view of a slot folds the event, the row of the slot goes on to agree with what is
held, and no other row is touched. -/
theorem enter (h : T.Follows x.subject.view es) (ent : Entered log x e log')
    (hsub : ∀ e' ∈ es, e' ∈ log.events) (hshown : x.Shown es (log.entry x) (T.look x.place)) :
    ∃ T' : Tables, T'.Follows x.subject.view (es ++ [e]) ∧
      x.Shown (es ++ [e]) (log'.entry x) (T'.look x.place) ∧
      (∀ v, v ≠ x.subject.view → T' v = T v) ∧ ∀ p, p ≠ x.place → T'.look p = T.look p := by
  obtain ⟨r, hr, fits⟩ := ent.revises
  have hnew : ∀ e' ∈ es, (x.revision? e').isSome → e'.sequence < e.sequence := by
    intro e' he' hsome
    have hs : e'.stream = x.subject.stream := by
      by_contra hne
      rw [Slot.revision?, if_neg hne] at hsome
      cases hsome
    exact ent.newer e' (hsub e' he') (hs.trans ent.stream.symm)
  obtain ⟨t', hfold, hshown', hframe⟩ := hshown.fold hr fits hnew
  have hadmits : x.subject.view.query.admits e = true := (ent.admits _).2 rfl
  refine ⟨Function.update T x.subject.view t', ?_, ?_, ?_, ?_⟩
  · unfold Follows
    rw [List.filter_append, List.filter_singleton, hadmits, Function.update_self, cond_true,
      Projection.rowsAfter_concat h]
    exact hfold
  · rw [ent.entry x, hr]
    unfold look
    change x.Shown _ _ ((Function.update T x.subject.view t' x.subject.view).get? x.key)
    rw [Function.update_self]
    exact hshown'
  · intro v hv
    exact Function.update_of_ne hv ..
  · rintro ⟨v, key⟩ hp
    unfold look
    dsimp only
    by_cases hv : v = x.subject.view
    · subst hv
      rw [Function.update_self]
      exact hframe key fun hk => hp (by rw [hk]; rfl)
    · rw [Function.update_of_ne hv]

end Tables

/-! ## Streams -/

namespace EventLog

/-- The rows that a stream alone comes to agree with the aggregates on it. -/
structure Agrees (log : EventLog) (kind id : String) (T : Tables) : Prop where
  follows : ∀ v, T.Follows v (log.ofStream kind id)
  shown : ∀ x : Slot, x.subject.stream.kind = kind → x.subject.stream.id = id →
    x.Shown (log.ofStream kind id) (log.entry x) (T.look x.place)

variable {log log' : EventLog} {kind id : String} {x : Slot} {e : Event} {T : Tables}

theorem agrees_of_events_eq_nil (h : log.events = []) (kind id : String) :
    log.Agrees kind id fun _ => Index.empty := by
  have hstream : log.ofStream kind id = [] := by
    unfold ofStream
    rw [h]
    rfl
  constructor
  · intro v
    rw [hstream]
    exact Tables.follows_nil v
  · intro x _ _
    rw [hstream, entry_of_load (load_of_events_eq_nil h _)]
    cases x <;> rfl

theorem Agrees.enter_of_ne (h : log.Agrees kind id T) (ent : Entered log x e log')
    (hne : ¬(x.subject.stream.kind = kind ∧ x.subject.stream.id = id)) : log'.Agrees kind id T := by
  have hoff : onStream kind id e = false := by
    unfold onStream
    rw [ent.stream, Bool.and_eq_false_iff, beq_eq_false_iff_ne, beq_eq_false_iff_ne]
    exact not_and_or.1 hne
  have hstream : log'.ofStream kind id = log.ofStream kind id := by
    unfold ofStream
    rw [ent.events, List.filter_append, List.filter_singleton, hoff, cond_false,
      List.append_nil]
  constructor
  · intro v
    rw [hstream]
    exact h.follows v
  · intro y hkind hid
    have hy : y ≠ x := by
      rintro rfl
      exact hne ⟨hkind, hid⟩
    rw [hstream, ent.entry y, ent.other y hy]
    exact h.shown y hkind hid

/-- An event on the stream is taken in by the view of its slot. -/
theorem Agrees.enter (h : log.Agrees x.subject.stream.kind x.subject.stream.id T)
    (ent : Entered log x e log') :
    ∃ T', log'.Agrees x.subject.stream.kind x.subject.stream.id T' := by
  have hon : onStream x.subject.stream.kind x.subject.stream.id e = true := by
    unfold onStream
    rw [ent.stream, beq_self_eq_true, beq_self_eq_true]
    rfl
  have hstream : log'.ofStream x.subject.stream.kind x.subject.stream.id
      = log.ofStream x.subject.stream.kind x.subject.stream.id ++ [e] := by
    unfold ofStream
    rw [ent.events, List.filter_append, List.filter_singleton, hon]
    rfl
  obtain ⟨T', hfollows, hshown, hsame, hframe⟩ :=
    Tables.enter (h.follows _) ent (fun e' he' => (List.mem_filter.1 he').1) (h.shown x rfl rfl)
  refine ⟨T', ?_, ?_⟩
  · intro v
    rw [hstream]
    by_cases hv : v = x.subject.view
    · rw [hv]
      exact hfollows
    · have hother := (h.follows v).concat_of_ne ent hv
      unfold Tables.Follows at hother ⊢
      rwa [hsame v hv]
  · intro y hkind hid
    rw [hstream]
    by_cases hy : y = x
    · subst hy
      exact hshown
    · have hs : y.subject.stream = x.subject.stream := Subject.stream_eq hkind hid
      have hplace : y.place ≠ x.place := fun hp => hy (Slot.eq_of_place hp hs)
      rw [ent.entry y, ent.other y hy, hframe _ hplace]
      exact (h.shown y hkind hid).concat (ent.other y hy)

/-- Rows and aggregates agree behind any run of commands. -/
theorem exists_agrees_after (h : log.events = []) (errands : List Errand) (kind id : String) :
    ∃ T, (log.after errands).Agrees kind id T := by
  induction errands using List.reverseRecOn with
  | nil => exact ⟨_, agrees_of_events_eq_nil h kind id⟩
  | append_singleton errands x ih =>
    obtain ⟨T, hT⟩ := ih
    rw [after_concat]
    rcases (kept_after h errands).land_entered x.command x.editor x.time with hl | ⟨e, ent⟩
    · rw [hl]
      exact ⟨T, hT⟩
    · by_cases hs : x.command.slot.subject.stream.kind = kind
          ∧ x.command.slot.subject.stream.id = id
      · obtain ⟨rfl, rfl⟩ := hs
        exact hT.enter ent
      · exact ⟨T, hT.enter_of_ne ent hs⟩

/-- A part of a log is the whole log behind fewer commands. -/
theorem exists_before_of_prefix (h : log.events = []) {errands : List Errand} {es : List Event}
    (hes : es <+: (log.after errands).events) : ∃ before, (log.after before).events = es := by
  induction errands using List.reverseRecOn with
  | nil =>
    change es <+: log.events at hes
    rw [h, List.prefix_nil] at hes
    exact ⟨[], h.trans hes.symm⟩
  | append_singleton errands x ih =>
    rw [after_concat] at hes
    rcases (kept_after h errands).land_entered x.command x.editor x.time with hl | ⟨e, ent⟩
    · exact ih (hl ▸ hes)
    · rw [ent.events, List.prefix_concat_iff] at hes
      rcases hes with rfl | hes
      · refine ⟨errands ++ [x], ?_⟩
        rw [after_concat, ent.events]
      · exact ih hes

/-- A part of a stream is the whole stream behind fewer commands. -/
theorem exists_take_ofStream (h : log.events = []) (errands : List Errand) (kind id : String)
    (n : Nat) : ∃ before, ((log.after errands).ofStream kind id).take n
      = (log.after before).ofStream kind id := by
  have hsplit := (List.take_append_drop n ((log.after errands).ofStream kind id)).symm
  obtain ⟨es, rest, hes, htake, -⟩ := List.filter_eq_append_iff.1 hsplit
  obtain ⟨before, hbefore⟩ := exists_before_of_prefix h (hes ▸ List.prefix_append es rest)
  refine ⟨before, htake.symm.trans ?_⟩
  unfold ofStream
  rw [hbefore]

end EventLog

/-- **Agreement.** Take any part of the stream of a slot, behind any run of commands. Every view can
fold the events of this part that it follows, the aggregate of the slot can replay them, and the row
of the slot agrees with what the aggregate holds. -/
theorem Slot.shown_after (schemas : Option SchemaSet) (errands : List Errand) (x : Slot) (n : Nat) :
    let log := ({ schemas := schemas } : EventLog).after errands
    let es := (log.history x.subject.stream.kind x.subject.stream.id).take n
    ∃ (T : Tables) (a : Aggregate x.subject.State x.subject.Fact),
      (∀ v, T.Follows v es) ∧ x.subject.decider.replay x.subject.decider.fresh es = .ok a ∧
      x.Shown es (x.held a.state) (T.look x.place) := by
  intro log es
  have hnil : ({ schemas := schemas } : EventLog).events = [] := rfl
  obtain ⟨before, hbefore⟩ := EventLog.exists_take_ofStream hnil errands x.subject.stream.kind
    x.subject.stream.id n
  have hkept := EventLog.kept_after hnil before
  have hes : es = (({ schemas := schemas } : EventLog).after before).ofStream
      x.subject.stream.kind x.subject.stream.id := by
    rw [← hbefore, ← (EventLog.kept_after hnil errands).numbered.history_eq]
  obtain ⟨T, hT⟩ := EventLog.exists_agrees_after hnil before x.subject.stream.kind
    x.subject.stream.id
  obtain ⟨a, ha, -⟩ := hkept.loads x.subject
  have hshown := hT.shown x rfl rfl
  rw [EventLog.entry_of_load ha] at hshown
  refine ⟨T, a, ?_, ?_, ?_⟩
  · rw [hes]
    exact hT.follows
  · rw [hes, ← hkept.numbered.history_eq]
    exact ha
  · rw [hes]
    exact hshown

end Chronicle
