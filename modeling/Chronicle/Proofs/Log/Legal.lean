import Mathlib.Computability.RegularExpressions
import Chronicle.Proofs.Command.Serial
import Chronicle.Proofs.Log.Apt
import Chronicle.Proofs.View.Held
/-!
# Legal histories

Commands and seeders only ever append what is decided on the state that is in force at the append. So
whatever their order, the events about one slot spell a word: something is added, changed any number
of times, removed, and added again. What cannot be removed is added once at most. And no event says
less or more than it has to.

* `Stage`, `Slot.word`: what the events about a slot spell;
* `Stage.term`, `Slot.spelling`: what they may spell;
* `Slot.Spells.concat`: an event that is apt continues the word;
* `EventLog.Legal`: legal histories;
* `EventLog.Lawful`: the invariant of the commands, and `EventLog.Lawful.enter`;
* **`Desk.legal_run`**: whatever the turns of callers, histories are legal.
-/

namespace Chronicle

/-! ## Words -/

/-- What happens to an entry. -/
inductive Stage where
  | added
  | changed
  | removed
deriving DecidableEq, Repr

/-- What a revision does to an entry. -/
def Revision.stage {C : Type} : Revision C → Stage
  | opened _ => .added
  | amended _ => .changed
  | closed => .removed

namespace Stage

open RegularExpression

/-- The entry is added, and changed any number of times. -/
def term : RegularExpression Stage := char added * (char changed).star

/-- Any number of times the entry is added, changed and removed. -/
def terms : RegularExpression Stage := (term * char removed).star

theorem added_mem_term : [added] ∈ term.matches' :=
  Language.append_mem_mul (Set.mem_singleton _) (Language.nil_mem_kstar _)

theorem concat_changed_mem_term {w : List Stage} (h : w ∈ term.matches') :
    w ++ [changed] ∈ term.matches' := by
  obtain ⟨a, ha, b, hb, rfl⟩ := Language.mem_mul.1 h
  have hstar : (char changed).star.matches' * (char changed).matches'
      ≤ (char changed).star.matches' := kstar_mul_le_kstar
  rw [List.append_assoc]
  refine Language.append_mem_mul ha (hstar ?_)
  exact Language.append_mem_mul hb (Set.mem_singleton _)

theorem concat_removed_mem_terms {w : List Stage} (h : w ∈ (terms * term).matches') :
    w ++ [removed] ∈ terms.matches' := by
  obtain ⟨a, ha, b, hb, rfl⟩ := Language.mem_mul.1 h
  have hstar : terms.matches' * (term * char removed).matches' ≤ terms.matches' :=
    kstar_mul_le_kstar
  rw [List.append_assoc]
  refine hstar (Language.append_mem_mul ha ?_)
  exact Language.append_mem_mul hb (Set.mem_singleton _)

end Stage

namespace Slot

/-- The stage that an event is for a slot, if it is about it. -/
def stage? (x : Slot) (e : Event) : Option Stage :=
  (x.revision? e).map Revision.stage

/-- What the events about a slot spell. -/
def word (x : Slot) (es : List Event) : List Stage :=
  es.filterMap x.stage?

/-- What the events about a slot spell while nothing is in it. -/
def emptied (x : Slot) : RegularExpression Stage :=
  if x.removable then Stage.terms else 1

/-- What the events about a slot may spell: it is filled and emptied any number of times, if this is
possible, and at last it may be filled. -/
def spelling (x : Slot) : RegularExpression Stage :=
  x.emptied * (1 + Stage.term)

variable {x : Slot} {es : List Event} {e : Event} {r : Revision x.Content}

theorem word_concat (h : x.revision? e = some r) : x.word (es ++ [e]) = x.word es ++ [r.stage] := by
  simp [word, stage?, h]

theorem word_concat_of_none (h : x.revision? e = none) : x.word (es ++ [e]) = x.word es := by
  simp [word, stage?, h]

theorem word_filter {p : Event → Bool} (h : ∀ e ∈ es, p e = false → x.revision? e = none) :
    x.word (es.filter p) = x.word es := by
  induction es using List.reverseRecOn with
  | nil => rfl
  | append_singleton es e ih =>
    have hes := ih fun e' he' => h e' (List.mem_append_left _ he')
    rw [List.filter_append, List.filter_singleton]
    cases hp : p e with
    | true =>
      rw [cond_true]
      unfold word at hes ⊢
      rw [List.filterMap_append, List.filterMap_append, hes]
    | false => rw [cond_false, List.append_nil, word_concat_of_none (h e (by simp) hp), hes]

/-- What the events about a slot spell goes with what they leave. -/
def Spells (x : Slot) (es : List Event) : Prop :=
  match x.holds es with
  | none => x.word es ∈ x.emptied.matches'
  | some _ => x.word es ∈ (x.emptied * Stage.term).matches'

theorem spells_nil (x : Slot) : x.Spells [] := by
  change [] ∈ x.emptied.matches'
  unfold emptied
  split
  · exact Language.nil_mem_kstar _
  · exact Language.nil_mem_one

theorem Spells.mem_spelling (h : x.Spells es) : x.word es ∈ x.spelling.matches' := by
  unfold Spells at h
  unfold spelling
  rw [RegularExpression.matches'_mul, RegularExpression.matches'_add, mul_add, Language.mem_add]
  cases hheld : x.holds es with
  | none =>
    rw [hheld] at h
    refine .inl ?_
    rw [RegularExpression.matches'_epsilon, mul_one]
    exact h
  | some content =>
    rw [hheld] at h
    exact .inr h

theorem Spells.concat_of_none (h : x.Spells es) (he : x.revision? e = none) :
    x.Spells (es ++ [e]) := by
  unfold Spells at h ⊢
  rwa [holds_concat_of_none he, word_concat_of_none he]

/-- **Words.** An event that is apt continues the word. -/
theorem Spells.concat (h : x.Spells es) (hr : x.revision? e = some r) (fits : r.Fits (x.holds es))
    (apt : x.Apt (x.holds es) e) : x.Spells (es ++ [e]) := by
  unfold Spells at h ⊢
  rw [holds_concat, word_concat hr, hr]
  cases r with
  | opened content =>
    rw [(apt.opened content hr).1] at h
    exact Language.append_mem_mul h Stage.added_mem_term
  | amended change =>
    obtain ⟨content, hheld⟩ := Option.ne_none_iff_exists'.1 (fits.resolve_left nofun)
    rw [hheld] at h ⊢
    obtain ⟨a, ha, b, hb, hw⟩ := Language.mem_mul.1 h
    change x.word es ++ [Stage.changed] ∈ _
    rw [← hw, List.append_assoc]
    exact Language.append_mem_mul ha (Stage.concat_changed_mem_term hb)
  | closed =>
    obtain ⟨content, hheld⟩ := Option.ne_none_iff_exists'.1 (fits.resolve_left nofun)
    rw [hheld] at h
    unfold emptied at h ⊢
    rw [if_pos (apt.closed hr)] at h ⊢
    exact Stage.concat_removed_mem_terms h

/-- Something is held behind events only if one of them is about the slot. -/
theorem exists_revision_of_holds (h : x.holds es ≠ none) : ∃ e ∈ es, x.revision? e ≠ none := by
  by_contra hno
  push Not at hno
  have hnil : x.holds (es.filter fun _ => false) = x.holds es :=
    holds_filter fun e he _ => hno e he
  rw [List.filter_false] at hnil
  exact h hnil.symm

/-- What is held stays held as long as no event closes the slot. -/
theorem holds_append_ne_none {es' : List Event} (h : x.holds es ≠ none)
    (open' : ∀ e ∈ es', x.revision? e ≠ some .closed) : x.holds (es ++ es') ≠ none := by
  induction es' using List.reverseRecOn with
  | nil => rwa [List.append_nil]
  | append_singleton es' e ih =>
    obtain ⟨content, hheld⟩ := Option.ne_none_iff_exists'.1
      (ih fun e' he' => open' e' (List.mem_append_left _ he'))
    have he := open' e (by simp)
    rw [← List.append_assoc, holds_concat, hheld]
    cases hr : x.revision? e with
    | none => exact Option.some_ne_none _
    | some r =>
      cases r with
      | opened content' => exact Option.some_ne_none _
      | amended change => exact Option.some_ne_none _
      | closed => exact absurd hr he

end Slot

/-! ## Legal histories -/

namespace EventLog

/-- The history of the stream of a slot. -/
def historyOf (log : EventLog) (x : Slot) : List Event :=
  log.history x.subject.stream.kind x.subject.stream.id

/-- The history of every stream is legal. -/
structure Legal (log : EventLog) : Prop where
  /-- Every event is about one slot of its stream and about no other slot. -/
  about : ∀ e ∈ log.events, ∃ x : Slot, e.stream = x.subject.stream ∧ x.revision? e ≠ none ∧
    ∀ y, y ≠ x → y.revision? e = none
  /-- The events about a slot spell what they may spell. -/
  spelled : ∀ x : Slot, x.word (log.historyOf x) ∈ x.spelling.matches'
  /-- No policy of an instance is removed. -/
  kept : ∀ e ∈ log.events, e.stream.kind = iamKind →
    e.tag ≠ PolicyEvent.lockoutTags.removed ∧ e.tag ≠ PolicyEvent.orgIamTags.removed
  /-- Every part of a stream can be replayed. -/
  replays : ∀ (x : Slot) (n : Nat),
    ∃ a, x.subject.decider.replay x.subject.decider.fresh ((log.historyOf x).take n) = .ok a
  /-- What cannot be removed is held for good. -/
  lasting : ∀ (x : Slot) (n m : Nat) a b, x.removable = false → n ≤ m →
    x.subject.decider.replay x.subject.decider.fresh ((log.historyOf x).take n) = .ok a →
    x.subject.decider.replay x.subject.decider.fresh ((log.historyOf x).take m) = .ok b →
    x.held a.state ≠ none → x.held b.state ≠ none
  /-- The parts of the keys of mail texts are not blank. -/
  named : ∀ x : Slot, (∃ e ∈ log.events, x.revision? e ≠ none) → x.Named
  /-- Events change no more than they have to of what is replayed just before them. -/
  sharp : ∀ (x : Slot) before e after a, log.historyOf x = before ++ e :: after →
    x.subject.decider.replay x.subject.decider.fresh before = .ok a → x.Sharp (x.held a.state) e

/-- What holds of every log that commands lead to. -/
structure Lawful (log : EventLog) : Prop where
  spells : ∀ x : Slot, x.Spells log.events
  kept : ∀ e ∈ log.events, e.stream.kind = iamKind →
    e.tag ≠ PolicyEvent.lockoutTags.removed ∧ e.tag ≠ PolicyEvent.orgIamTags.removed
  lasting : ∀ x : Slot, x.removable = false → ∀ e ∈ log.events, x.revision? e ≠ some .closed
  named : ∀ x : Slot, (∃ e ∈ log.events, x.revision? e ≠ none) → x.Named
  sharp : ∀ (x : Slot) before e after, log.events = before ++ e :: after →
    e.stream = x.subject.stream → x.Sharp (x.holds before) e

variable {log log' : EventLog} {x : Slot} {e : Event}

theorem lawful_of_events_eq_nil (h : log.events = []) : log.Lawful := by
  constructor <;> rw [h]
  case spells => exact Slot.spells_nil
  case sharp => intro x before e after hsplit; simp at hsplit
  case named => rintro x ⟨e, he, -⟩; cases he
  all_goals simp

/-- **Events.** An event that is apt keeps histories legal. -/
theorem Lawful.enter (h : log.Lawful) (ent : Entered log x e log')
    (entry : ∀ y, log.entry y = y.holds log.events) (apt : x.Apt (log.entry x) e) :
    log'.Lawful := by
  obtain ⟨r, hr, fits⟩ := ent.revises
  rw [entry x] at fits apt
  have hmem {P : Event → Prop} (hold : ∀ e' ∈ log.events, P e') (hnew : P e) :
      ∀ e' ∈ log'.events, P e' := by
    rw [ent.events]
    exact List.forall_mem_append.2 ⟨hold, by simpa using hnew⟩
  constructor
  case kept => exact hmem h.kept apt.kept
  case spells =>
    intro y
    rw [ent.events]
    by_cases hy : y = x
    · subst hy
      exact (h.spells y).concat hr fits apt
    · exact (h.spells y).concat_of_none (ent.other y hy)
  case lasting =>
    intro y hy
    refine hmem (h.lasting y hy) fun hclosed => ?_
    by_cases hyx : y = x
    · subst hyx
      rw [apt.closed hclosed] at hy
      cases hy
    · rw [ent.other y hyx] at hclosed
      cases hclosed
  case named =>
    rintro y ⟨e', he', hrev⟩
    rw [ent.events, List.mem_append, List.mem_singleton] at he'
    rcases he' with hold | rfl
    · exact h.named y ⟨e', hold, hrev⟩
    · obtain rfl : y = x := by
        by_contra hyx
        exact hrev (ent.other y hyx)
      -- what is changed or removed has been added before
      by_cases hheld : y.holds log.events = none
      · cases r with
        | opened content => exact (apt.opened content hr).2
        | amended change => exact absurd hheld (fits.resolve_left nofun)
        | closed => exact absurd hheld (fits.resolve_left nofun)
      · exact h.named y (Slot.exists_revision_of_holds hheld)
  case sharp =>
    intro y before e' after hsplit hs
    rw [ent.events] at hsplit
    rcases split_of_concat hsplit with ⟨rfl, rfl, rfl⟩ | ⟨rest, -, hbefore⟩
    · by_cases hy : y = x
      · subst hy
        exact apt.sharp
      · exact Slot.sharp_of_revision?_eq_none hs (ent.other y hy) _
    · exact h.sharp y before e' rest hbefore hs

theorem lawful_after (h : log.events = []) (errands : List Errand) : (log.after errands).Lawful := by
  induction errands using List.reverseRecOn with
  | nil => exact lawful_of_events_eq_nil h
  | append_singleton errands y ih =>
    rw [after_concat]
    rcases (kept_after h errands).land_apt y.command y.editor y.time with hl | ⟨e, ent, apt⟩
    · rwa [hl]
    · exact ih.enter ent (entry_after h errands) apt

/-- An event of a stream, with what comes before it in the stream and in the log. -/
theorem exists_split_of_filter {es before after : List Event} {p : Event → Bool}
    (h : es.filter p = before ++ e :: after) :
    ∃ before' after', es = before' ++ e :: after' ∧ before'.filter p = before ∧ p e = true := by
  obtain ⟨l₁, l₂, rfl, hl₁, hl₂⟩ := List.filter_eq_append_iff.1 h
  obtain ⟨l₃, l₄, rfl, hl₃, hp, -⟩ := List.filter_eq_cons_iff.1 hl₂
  refine ⟨l₁ ++ l₃, l₄, (List.append_assoc ..).symm, ?_, hp⟩
  rw [List.filter_append, hl₁, List.filter_eq_nil_iff.2 hl₃, List.append_nil]

/-- Behind any run of commands histories are legal. -/
theorem legal_after (h : log.events = []) (errands : List Errand) : (log.after errands).Legal := by
  have lawful := lawful_after h errands
  have hreplay := fun x => Slot.exists_replay_take h errands x
  have hhistory : ∀ x : Slot, (log.after errands).historyOf x
      = (log.after errands).ofStream x.subject.stream.kind x.subject.stream.id :=
    fun x => (kept_after h errands).numbered.history_eq ..
  have habout := about_after h errands
  refine ⟨fun e he => ?_, fun x => ?_, lawful.kept, fun x n => ?_, ?_, lawful.named, ?_⟩
  · obtain ⟨x, hs, hr, hother, -⟩ := habout e he
    exact ⟨x, hs, hr, hother⟩
  · have hword : x.word ((log.after errands).historyOf x) = x.word (log.after errands).events := by
      rw [hhistory]
      exact Slot.word_filter fun _ _ => Slot.revision?_of_off
    rw [hword]
    exact (lawful.spells x).mem_spelling
  · obtain ⟨a, ha, -⟩ := hreplay x n
    exact ⟨a, ha⟩
  · intro x n m a b hx hnm ha hb hheld
    obtain ⟨a', ha', hheld_a⟩ := hreplay x n
    obtain ⟨b', hb', hheld_b⟩ := hreplay x m
    cases ha'.symm.trans ha
    cases hb'.symm.trans hb
    obtain ⟨more, hmore⟩ := List.take_prefix_take_left hnm
    rw [hheld_a] at hheld
    rw [hheld_b, ← historyOf, ← hmore]
    refine Slot.holds_append_ne_none hheld fun e he => lawful.lasting x hx e ?_
    have hmem : e ∈ (log.after errands).historyOf x :=
      List.mem_of_mem_take (hmore ▸ List.mem_append_right _ he)
    rw [hhistory] at hmem
    exact (List.mem_filter.1 hmem).1
  · intro x before e after a hsplit ha
    obtain ⟨a', ha', hheld⟩ := hreplay x before.length
    rw [← historyOf, hsplit, List.take_left] at ha' hheld
    cases ha'.symm.trans ha
    rw [hhistory] at hsplit
    obtain ⟨before', after', hevents, rfl, he⟩ := exists_split_of_filter hsplit
    have hrest : x.holds (before'.filter (onStream x.subject.stream.kind x.subject.stream.id))
        = x.holds before' := Slot.holds_filter fun _ _ => Slot.revision?_of_off
    rw [hheld, hrest]
    refine lawful.sharp x before' e after' hevents ?_
    obtain ⟨y, hy, -⟩ := habout e (hevents ▸ by simp)
    simp only [onStream, hy, Bool.and_eq_true, beq_iff_eq] at he
    rw [hy, Subject.stream_eq he.1 he.2]

end EventLog

/-! ## Callers at one log -/

/-- **Legal histories.** Callers of commands and seeders take their turns in any order, at one log that
is empty at first. The history of every stream is legal behind all turns. -/
theorem Desk.legal_run {ι : Type} [DecidableEq ι] (schemas : Option SchemaSet) (jobs : ι → Job)
    (now : Instant) (turns : List (ι × Instant)) :
    ((Desk.start now { schemas := schemas } jobs).run turns).log.Legal := by
  have hprepared : (Desk.start now { schemas := schemas } jobs).Prepared :=
    prepared_start (EventLog.numbered_of_events_eq_nil rfl)
  obtain ⟨errands, hlog⟩ := hprepared.exists_after turns
  rw [hlog]
  exact EventLog.legal_after rfl errands

end Chronicle
