import Chronicle.Proofs.View.Agreement
/-!
# What events leave behind

What a slot holds can be read off the events about it, one revision after the other. An aggregate
that replays any part of its stream holds just that.

* `EventLog.about_after`: every event is about one slot;
* `Slot.holds`: what is held behind a list of events;
* `EventLog.entry_after`: it is what the aggregate holds that is loaded from the log;
* **`Slot.exists_replay_take`**: it is what the aggregate holds behind any part of its stream;
* **`Slot.exists_replay_upTo`**: a row shows what the aggregate holds behind the events that the row
  has reached.
-/

namespace Chronicle

namespace Slot

/-- What a slot holds behind a list of events. -/
def holds (x : Slot) (es : List Event) : Option x.Content :=
  es.foldl (fun held e => Revision.after held (x.revision? e)) none

variable {x : Slot} {es : List Event} {e : Event}

@[simp] theorem holds_concat (x : Slot) (es : List Event) (e : Event) :
    x.holds (es ++ [e]) = Revision.after (x.holds es) (x.revision? e) := by
  simp [holds, List.foldl_append]

theorem holds_concat_of_none (h : x.revision? e = none) : x.holds (es ++ [e]) = x.holds es := by
  rw [holds_concat, h]
  rfl

/-- Events that are about something else can be left out. -/
theorem holds_filter {p : Event → Bool} (h : ∀ e ∈ es, p e = false → x.revision? e = none) :
    x.holds (es.filter p) = x.holds es := by
  induction es using List.reverseRecOn with
  | nil => rfl
  | append_singleton es e ih =>
    have hes := ih fun e' he' => h e' (List.mem_append_left _ he')
    rw [List.filter_append, List.filter_singleton]
    cases hp : p e with
    | true => rw [cond_true, holds_concat, holds_concat, hes]
    | false => rw [cond_false, List.append_nil, holds_concat_of_none (h e (by simp) hp), hes]

/-- An event of another stream is about something else. -/
theorem revision?_of_off (h : EventLog.onStream x.subject.stream.kind x.subject.stream.id e = false) :
    x.revision? e = none := by
  refine if_neg fun hs => ?_
  rw [EventLog.onStream, hs] at h
  simp at h

theorem onStream_of_revision? (h : x.revision? e ≠ none) :
    EventLog.onStream x.subject.stream.kind x.subject.stream.id e = true := by
  by_contra hoff
  exact h (revision?_of_off (Bool.eq_false_iff.2 hoff))

/-- A row does not show events that are about something else. -/
theorem shown_filter {p : Event → Bool} (h : ∀ e ∈ es, p e = false → x.revision? e = none)
    {held : Option x.Content} {row : Option x.subject.view.Entry} :
    x.Shown (es.filter p) held row ↔ x.Shown es held row := by
  have hfilter (q : Event → Bool) (hq : ∀ e, q e = true → x.revision? e ≠ none) :
      (es.filter p).filter q = es.filter q := by
    rw [List.filter_filter]
    refine List.filter_congr fun e he => ?_
    cases hp : p e with
    | true => rw [Bool.and_true]
    | false =>
      rw [Bool.and_false]
      exact (Bool.eq_false_iff.2 fun hqe => hq e hqe (h e he hp)).symm
  have hlast : x.last? (es.filter p) = x.last? es := by
    unfold last?
    rw [hfilter _ fun e he hn => by simp [hn] at he]
  have hopened : x.opened? (es.filter p) = x.opened? es := by
    unfold opened?
    rw [hfilter _ fun e he hn => by simp [hn] at he]
  unfold Shown
  rw [hlast, hopened]

/-- The stream of a slot is all there is about it. -/
theorem holds_ofStream (x : Slot) (log : EventLog) :
    x.holds (log.ofStream x.subject.stream.kind x.subject.stream.id) = x.holds log.events :=
  holds_filter fun _ _ => revision?_of_off

end Slot

/-- Behind any run of commands every event is about one slot, and is followed by the view of this
slot alone. -/
theorem EventLog.about_after {log : EventLog} (h : log.events = []) (errands : List Errand) :
    ∀ e ∈ (log.after errands).events, ∃ x : Slot, e.stream = x.subject.stream ∧
      x.revision? e ≠ none ∧ (∀ y, y ≠ x → y.revision? e = none) ∧
      ∀ v : ViewKind, v.query.admits e = true ↔ v = x.subject.view := by
  induction errands using List.reverseRecOn with
  | nil =>
    intro e he
    change e ∈ log.events at he
    rw [h] at he
    cases he
  | append_singleton errands y ih =>
    rw [after_concat]
    rcases (kept_after h errands).land_entered y.command y.editor y.time with hl | ⟨e, ent⟩
    · rwa [hl]
    · obtain ⟨r, hr, -⟩ := ent.revises
      rw [ent.events]
      refine List.forall_mem_append.2 ⟨ih, List.forall_mem_singleton.2 ?_⟩
      exact ⟨_, ent.stream, by rw [hr]; exact Option.some_ne_none r, ent.other, ent.admits⟩

/-- **Entries.** Behind any run of commands an aggregate holds what the events leave. -/
theorem EventLog.entry_after {log : EventLog} (h : log.events = []) (errands : List Errand)
    (x : Slot) : (log.after errands).entry x = x.holds (log.after errands).events := by
  induction errands using List.reverseRecOn with
  | nil =>
    change log.entry x = x.holds log.events
    rw [h, entry_of_load (load_of_events_eq_nil h _)]
    cases x <;> rfl
  | append_singleton errands y ih =>
    rw [after_concat]
    rcases (kept_after h errands).land_entered y.command y.editor y.time with hl | ⟨e, ent⟩
    · rw [hl, ih]
    · rw [ent.entry, ent.events, Slot.holds_concat, ih]

/-- **Replays.** Behind any run of commands the aggregate of a slot can replay any part of its stream,
and then it holds what the events of this part leave. -/
theorem Slot.exists_replay_take {log : EventLog} (h : log.events = []) (errands : List Errand)
    (x : Slot) (n : Nat) :
    ∃ a, x.subject.decider.replay x.subject.decider.fresh
        (((log.after errands).history x.subject.stream.kind x.subject.stream.id).take n) = .ok a ∧
      x.held a.state = x.holds
        (((log.after errands).history x.subject.stream.kind x.subject.stream.id).take n) := by
  obtain ⟨before, hbefore⟩ := EventLog.exists_take_ofStream h errands x.subject.stream.kind
    x.subject.stream.id n
  have hkept := EventLog.kept_after h before
  obtain ⟨a, ha, -⟩ := hkept.loads x.subject
  rw [(EventLog.kept_after h errands).numbered.history_eq, hbefore, x.holds_ofStream,
    ← EventLog.entry_after h before x, EventLog.entry_of_load ha, ← hkept.numbered.history_eq]
  exact ⟨a, ha, rfl⟩

/-! ## Rows -/

section row

variable {log : EventLog} {x : Slot} {before : List Event} {e last : Event}

/-- The stream of a slot is in ascending order in every part of a log. -/
theorem EventLog.Numbered.stream_ascending (n : log.Numbered) (hb : before <+: log.events)
    (kind id : String) :
    (before.filter (onStream kind id)).Pairwise fun a b => a.sequence < b.sequence := by
  have hall : (log.ofStream kind id).Pairwise fun a b => a.sequence < b.sequence :=
    List.pairwise_map.1 (n.sequence kind id).pairwise
  exact hall.sublist (hb.sublist.filter _)

/-- No event about a slot comes behind the last one. -/
theorem Slot.sequence_le_last (n : log.Numbered) (hb : before <+: log.events)
    (hlast : x.last? before = some last) (he : e ∈ before) (hr : x.revision? e ≠ none) :
    e.sequence ≤ last.sequence := by
  obtain ⟨init, hinit⟩ := List.getLast?_eq_some_iff.1 hlast
  have habout : e ∈ init ++ [last] := by
    rw [← hinit]
    exact List.mem_filter.2 ⟨he, Option.isSome_iff_ne_none.2 hr⟩
  have hasc : (init ++ [last]).Pairwise fun a b => a.sequence < b.sequence := by
    rw [← hinit]
    refine (n.stream_ascending hb x.subject.stream.kind x.subject.stream.id).sublist ?_
    refine List.monotone_filter_right before fun a ha => ?_
    exact onStream_of_revision? (Option.isSome_iff_ne_none.1 ha)
  rcases List.mem_append.1 habout with hin | hlast
  · exact Int.le_of_lt ((List.pairwise_append.1 hasc).2.2 e hin last List.mem_cons_self)
  · rw [List.mem_singleton.1 hlast]

/-- What a stream holds up to the last event about a slot in a part of the log was in this part. -/
theorem Slot.filter_ofStream (n : log.Numbered) (hb : before <+: log.events)
    (hlast : x.last? before = some last) :
    (log.ofStream x.subject.stream.kind x.subject.stream.id).filter
        (fun e => decide (e.sequence ≤ last.sequence))
      = before.filter fun e => decide (e.sequence ≤ last.sequence) &&
          EventLog.onStream x.subject.stream.kind x.subject.stream.id e := by
  obtain ⟨hmem, hsome⟩ := mem_of_last? hlast
  have hon := onStream_of_revision? (Option.isSome_iff_ne_none.1 hsome)
  have hasc := n.stream_ascending List.prefix_rfl x.subject.stream.kind x.subject.stream.id
  obtain ⟨rest, hrest⟩ := hb
  rw [← hrest, List.filter_append] at hasc
  have hnew : ((rest.filter (EventLog.onStream x.subject.stream.kind x.subject.stream.id)).filter
      fun e => decide (e.sequence ≤ last.sequence)) = [] := by
    refine List.filter_eq_nil_iff.2 fun e he => ?_
    have := (List.pairwise_append.1 hasc).2.2 last (List.mem_filter.2 ⟨hmem, hon⟩) e he
    rw [decide_eq_true_eq]
    omega
  unfold EventLog.ofStream
  rw [← hrest, List.filter_append, List.filter_append, hnew, List.append_nil, List.filter_filter]

/-- **Rows.** Take a row that shows what is held behind some part of the log. The aggregate that
replays its stream as far as the row has come holds what the row shows. -/
theorem Slot.exists_replay_upTo (h : log.events = []) (errands : List Errand)
    (hb : before <+: (log.after errands).events) {row : x.subject.view.Entry}
    (hshown : x.Shown before (x.holds before) (some row)) :
    let es := ((log.after errands).history x.subject.stream.kind x.subject.stream.id).filter
      fun e => decide (e.sequence ≤ Row.sequence row)
    ∃ a, x.subject.decider.replay x.subject.decider.fresh es = .ok a ∧
      x.Shown es (x.held a.state) (some row) := by
  intro es
  have n := (EventLog.kept_after h errands).numbered
  obtain ⟨last, hlast, hseq⟩ : ∃ last, x.last? before = some last ∧
      Row.sequence row = last.sequence := by
    unfold Shown at hshown
    cases hheld : x.holds before with
    | none =>
      rw [hheld] at hshown
      cases hshown
    | some content =>
      rw [hheld] at hshown
      obtain ⟨opened, last, -, hlast, hrow⟩ := hshown
      cases hrow
      exact ⟨last, hlast, sequence_row ..⟩
  obtain ⟨p, hes, hrest⟩ : ∃ p, es = before.filter p ∧
      ∀ e ∈ before, p e = false → x.revision? e = none := by
    refine ⟨fun e => decide (e.sequence ≤ last.sequence) &&
      EventLog.onStream x.subject.stream.kind x.subject.stream.id e, ?_, fun e he hout => ?_⟩
    · change List.filter _ _ = _
      rw [n.history_eq, hseq]
      exact filter_ofStream n hb hlast
    · dsimp only at hout
      by_contra hr
      rw [onStream_of_revision? hr, Bool.and_true, decide_eq_false_iff_not] at hout
      exact hout (sequence_le_last n hb hlast he hr)
  -- the part of the stream that the row has reached is a start of the stream
  have hstart : es <+: (log.after errands).history x.subject.stream.kind x.subject.stream.id := by
    have hasc : ((log.after errands).history x.subject.stream.kind x.subject.stream.id).Pairwise
        fun a b => a.sequence < b.sequence := by
      rw [n.history_eq]
      exact n.stream_ascending List.prefix_rfl ..
    exact ⟨_, EventLog.filter_append_filter hasc (Row.sequence row)⟩
  obtain ⟨a, ha, hheld⟩ := exists_replay_take h errands x es.length
  rw [← List.prefix_iff_eq_take.1 hstart] at ha hheld
  refine ⟨a, ha, ?_⟩
  rw [hheld, hes, holds_filter hrest, shown_filter hrest]
  exact hshown

end row

end Chronicle
