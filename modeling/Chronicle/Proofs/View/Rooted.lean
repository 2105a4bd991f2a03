import Chronicle.Proofs.Command.Refinement
import Chronicle.Proofs.Log.Behind
import Chronicle.Proofs.View.Shipped
import Chronicle.Proofs.View.Stale
/-!
# Rows have roots

In a log that commands lead to, no event changes or ends a row out of nowhere: the row was put in by
an earlier event. So a view can be folded at least as far as no row has ended.

* `ViewKind.key?`: the slots that a view shows;
* `ViewKind.Roots`, `ViewKind.Rooted`: events that put a row in, and logs whose rows have roots;
* `ViewKind.instruction_deed`: what a deed asks of a view;
* `ViewKind.Handled`: what holds of every log that commands lead to;
* **`ViewKind.rooted_after`**: logs that commands lead to are rooted;
* **`ViewKind.Rooted.fold`**: the next event can be folded as long as no row has ended.
-/

namespace Chronicle

namespace ViewKind

/-- The key under which a view shows a slot, if it shows it. -/
def key? : (v : ViewKind) → Slot → Option v.Key
  | lockout, .lockout owner => some owner.id
  | orgIam, .orgIam owner => some owner.id
  | mailText, .mailText iam key => some (iam, key)
  | member, .member iam user => some (iam, user)
  | _, _ => none

/-- The event puts a row in under a key. -/
def Roots (v : ViewKind) (key : v.Key) (e : Event) : Prop :=
  v.query.admits e = true ∧ ∃ row, v.projection.instruction e = .ok (.put row) ∧ Row.key row = key

/-- Every event that the view follows is about a row that it puts in or that an earlier event put
in. -/
def Rooted (v : ViewKind) (log : EventLog) : Prop :=
  ∀ before e after, log.events = before ++ e :: after → v.query.admits e = true →
    ∃ i, v.projection.instruction e = .ok i ∧
      (v.Roots i.key e ∨ ∃ e₀ ∈ before, v.Roots i.key e₀)

end ViewKind

/-! ## Which deeds a view follows -/

theorem Filter.admits_ofTags {kinds tags : List String} {e : Event} :
    ((Filter.all.ofKinds kinds).ofTags tags).admits e
      = (decide (0 < e.position) && listed kinds e.stream.kind && listed tags e.tag) := by
  unfold admits met
  dsimp only [all, ofKinds, ofTags]
  rw [Bool.and_true, Bool.and_true]
  rfl

namespace ViewKind

/-- The types of the aggregates that a view follows. -/
def kinds : ViewKind → List String
  | lockout => [iamKind, orgKind]
  | orgIam => [iamKind, orgKind]
  | mailText => [iamKind]
  | member => [iamKind]

/-- The types of the events that a view follows. -/
def tags : ViewKind → List String
  | lockout => PolicyEvent.lockoutTags.all
  | orgIam => PolicyEvent.orgIamTags.all
  | mailText => PolicyEvent.mailTextTags
  | member => MemberEvent.tags

theorem admits_query (v : ViewKind) (e : Event) :
    v.query.admits e
      = (decide (0 < e.position) && v.kinds.contains e.stream.kind && v.tags.contains e.tag) := by
  cases v <;> exact Filter.admits_ofTags

/-- No two views follow the same type of events. -/
theorem tags_disjoint {v w : ViewKind} (h : v ≠ w) : ∀ t ∈ w.tags, t ∉ v.tags := by
  cases v <;> cases w <;> first | exact absurd rfl h | decide

end ViewKind

/-- The view that shows the slots of a subject. -/
def Subject.view : Subject → ViewKind
  | lockout _ => .lockout
  | orgIam _ => .orgIam
  | mailText _ _ => .mailText
  | members _ => .member

/-- The view of a subject follows the deeds of this subject. -/
theorem Subject.Own.mem_tags {s : Subject} {fact : s.Fact} (own : s.Own fact) :
    (s.deed fact).tag ∈ s.view.tags := by
  cases s with
  | lockout owner =>
    obtain ⟨e, rfl⟩ := own
    exact PolicyEvent.lockoutTags.of_mem_all e
  | orgIam owner =>
    obtain ⟨e, rfl⟩ := own
    exact PolicyEvent.orgIamTags.of_mem_all e
  | mailText iam key =>
    rcases own with ⟨content, rfl⟩ | ⟨change, rfl⟩
    · exact List.mem_cons_self
    · exact List.mem_cons_of_mem _ List.mem_cons_self
  | members iam => exact MemberEvent.tag_mem fact

theorem Subject.kind_mem_kinds (s : Subject) (fact : s.Fact) :
    (s.deed fact).owner.stream.kind ∈ s.view.kinds := by
  have hkind (owner : Owner) : owner.stream.kind ∈ [iamKind, orgKind] := by
    cases owner with
    | iam id => exact List.mem_cons_self
    | org id => exact List.mem_cons_of_mem _ List.mem_cons_self
  cases s with
  | lockout owner => exact hkind owner
  | orgIam owner => exact hkind owner
  | mailText iam key => exact List.mem_cons_self
  | members iam => exact List.mem_cons_self

/-- **Following.** A view follows the deed of a command exactly if it is the view of its subject. -/
theorem ViewKind.admits_deed {v : ViewKind} {s : Subject} {fact : s.Fact} (own : s.Own fact)
    {editor : String} {now : Instant} {position sequence : Int} (hpos : 0 < position) :
    v.query.admits ((s.deed fact).event editor now position sequence) = true ↔ v = s.view := by
  rw [admits_query, Bool.and_eq_true, Bool.and_eq_true, List.contains_iff_mem,
    List.contains_iff_mem]
  constructor
  · rintro ⟨-, htag⟩
    by_contra hne
    exact tags_disjoint hne _ own.mem_tags htag
  · rintro rfl
    exact ⟨⟨decide_eq_true hpos, s.kind_mem_kinds fact⟩, own.mem_tags⟩

/-! ## What a deed asks of a view -/

namespace Deed

variable (editor : String) (now : Instant) (position sequence : Int)

theorem decode_policy (owner : Owner) (e : PolicyEvent) :
    PolicyEvent.codec.decode (event (.policy owner e) editor now position sequence) = .ok e :=
  PolicyEvent.codec_lawful.read_payload e

theorem decode_member (iam : String) (e : MemberEvent) :
    MemberEvent.codec.decode (event (.member iam e) editor now position sequence) = .ok e :=
  MemberEvent.codec_lawful.read_payload e

end Deed

section instruction

variable (editor : String) (now : Instant) (position sequence : Int)

namespace PolicyKind

variable {S C : Type} [Settings S C] {k : PolicyKind S C} {owner : Owner} {r : PolicyCommand S}
  {p : PolicyState S} {fact : SettingsEvent S C}

/-- An answer adds a policy, or is about one that is in effect. -/
theorem held_of_answer (h : k.answer owner r p = .ok fact) :
    (∃ s, fact = .added s) ∨ p.held ≠ none := by
  rcases answer_cases h with ⟨s, -, -, rfl⟩ | ⟨_, _, -, ha, -⟩ | ⟨-, -, ha, -⟩
  · exact .inl ⟨s, rfl⟩
  · exact .inr (by simp [PolicyState.held, ha])
  · exact .inr (by simp [PolicyState.held, ha])

/-- A deed of a policy asks something of the row of its owner: to put it in, or else the policy has
been in effect. -/
theorem exists_instruction (view : String) (hu : ∀ e, k.unwrap? (k.wrap e) = some e)
    {fact : PolicyEvent} (h : (k.answer owner r p).map k.wrap = .ok fact) :
    ∃ i, (k.projection view).instruction
        (Deed.event (.policy owner fact) editor now position sequence) = .ok i ∧
      i.key = owner.id ∧ ((∃ row, i = .put row) ∨ p.held ≠ none) := by
  have hid : (Deed.event (.policy owner fact) editor now position sequence).stream.id = owner.id := by
    cases owner <;> rfl
  cases ha : k.answer owner r p with
  | error err =>
    rw [ha] at h
    cases h
  | ok e =>
    rw [ha] at h
    cases h
    rw [instruction_projection]
    unfold instruction
    rw [Deed.decode_policy]
    dsimp only
    rw [hu]
    rcases held_of_answer ha with ⟨s, rfl⟩ | hheld
    · exact ⟨_, rfl, hid, .inl ⟨_, rfl⟩⟩
    · cases e <;> exact ⟨_, rfl, hid, .inr hheld⟩

end PolicyKind

namespace MailText

variable {iam : String} {key : MailTextKey} {r : MailTextCommand} {m : MailTextState}
  {fact : PolicyEvent} {e : Event}

/-- An answer adds a mail text, or is about one that is set. -/
theorem held_of_answer (h : answer iam key r m = .ok fact) :
    (∃ content, fact = .mailTextAdded key content) ∨
      (∃ change, fact = .mailTextChanged key change) ∧ m.held ≠ none := by
  rcases answer_cases h with ⟨content, -, -, -, rfl⟩ | ⟨_, change, -, ha, -, rfl⟩
  · exact .inl ⟨content, rfl⟩
  · exact .inr ⟨⟨change, rfl⟩, by simp [MailTextState.held, ha]⟩

theorem exists_instruction (h : answer iam key r m = .ok fact) :
    ∃ i, mailTextProjection.instruction
        (Deed.event (.policy (.iam iam) fact) editor now position sequence) = .ok i ∧
      i.key = (iam, key) ∧ ((∃ row, i = .put row) ∨ m.held ≠ none) := by
  rw [mailTextProjection_instruction]
  unfold instruction
  rw [Deed.decode_policy]
  rcases held_of_answer h with ⟨content, rfl⟩ | ⟨⟨change, rfl⟩, hheld⟩
  · exact ⟨_, rfl, rfl, .inl ⟨_, rfl⟩⟩
  · exact ⟨_, rfl, rfl, .inr hheld⟩

end MailText

namespace Members

variable {iam : String} {r : MemberCommand} {m : MemberState} {fact : MemberEvent}

/-- An answer adds a user, or is about a member. -/
theorem held_of_answer (h : answer iam r m = .ok fact) :
    fact.user = r.user ∧
      ((∃ roles, fact = .added r.user roles) ∨ MemberState.held m r.user ≠ none) := by
  rcases answer_cases h with ⟨user, _, granted, rfl, -, -, rfl⟩ |
    ⟨user, _, _, held, rfl, hm, -, -, rfl⟩ | ⟨user, rfl, hc, rfl⟩
  · exact ⟨rfl, .inl ⟨granted, rfl⟩⟩
  · exact ⟨rfl, .inr (by simp [MemberState.held, MemberCommand.user, hm])⟩
  · obtain ⟨held, hm⟩ := Option.isSome_iff_exists.1 hc
    exact ⟨rfl, .inr (by simp [MemberState.held, MemberCommand.user, hm])⟩

theorem exists_instruction (h : answer iam r m = .ok fact) :
    ∃ i, memberProjection.instruction
        (Deed.event (.member iam fact) editor now position sequence) = .ok i ∧
      i.key = (iam, r.user) ∧ ((∃ row, i = .put row) ∨ MemberState.held m r.user ≠ none) := by
  rw [memberProjection_instruction]
  unfold instruction
  rw [Deed.decode_member]
  obtain ⟨huser, ⟨roles, rfl⟩ | hheld⟩ := held_of_answer h
  · exact ⟨_, rfl, rfl, .inl ⟨_, rfl⟩⟩
  · rw [← huser] at hheld ⊢
    cases fact <;> exact ⟨_, rfl, rfl, .inr hheld⟩

end Members

end instruction

namespace ViewKind

variable {v : ViewKind} {c : Command} {state : c.subject.State} {fact : c.subject.Fact}

/-- **Deeds.** A deed asks of the view of its subject something of the row of its slot: to put it
in, or else the slot has held something before. -/
theorem instruction_deed (h : c.subject.decider.answer c.request state = .ok fact)
    (editor : String) (now : Instant) (position sequence : Int) :
    ∃ key i, c.subject.view.key? c.slot = some key ∧
      c.subject.view.projection.instruction
        ((c.subject.deed fact).event editor now position sequence) = .ok i ∧
      i.key = key ∧ ((∃ row, i = .put row) ∨ c.subject.read state c.slot ≠ none) := by
  obtain ⟨subject, r⟩ := c
  cases subject with
  | lockout owner =>
    obtain ⟨i, hi, hkey, hput⟩ := lockoutKind.exists_instruction editor now position sequence
      "projections.lockout_policies" (fun _ => rfl) h
    exact ⟨owner.id, i, rfl, hi, hkey, hput⟩
  | orgIam owner =>
    obtain ⟨i, hi, hkey, hput⟩ := orgIamKind.exists_instruction editor now position sequence
      "projections.org_iam_policies" (fun _ => rfl) h
    exact ⟨owner.id, i, rfl, hi, hkey, hput⟩
  | mailText iam key =>
    obtain ⟨i, hi, hkey, hput⟩ := MailText.exists_instruction editor now position sequence h
    exact ⟨(iam, key), i, rfl, hi, hkey, hput⟩
  | members iam =>
    obtain ⟨i, hi, hkey, hput⟩ := Members.exists_instruction editor now position sequence h
    exact ⟨(iam, r.user), i, rfl, hi, hkey, hput⟩

/-! ## Logs that commands lead to -/

theorem key?_eq_none {x : Slot} (h : v ≠ x.subject.view) : v.key? x = none := by
  cases v <;> cases x <;> first | rfl | exact absurd rfl h

/-- What holds of every log that commands lead to: its rows have roots, and so has what is in
effect. -/
structure Handled (v : ViewKind) (log : EventLog) : Prop where
  kept : log.Kept
  rooted : v.Rooted log
  shown : ∀ x key, v.key? x = some key → log.ledger x ≠ none → ∃ e ∈ log.events, v.Roots key e

variable {log : EventLog} {editor : String} {now : Instant}

theorem handled_of_events_eq_nil (h : log.events = []) : v.Handled log := by
  refine ⟨EventLog.kept_of_events_eq_nil h, ?_, ?_⟩
  · intro before e after hlog
    rw [h] at hlog
    simp at hlog
  · intro x key hkey hheld
    rw [EventLog.ledger_of_events_eq_nil h] at hheld
    exact absurd rfl hheld

section record

variable {a : Aggregate c.subject.State c.subject.Fact} {position sequence : Int}

/-- A deed is about a row that it puts in or that has a root. -/
theorem Handled.root_deed (h : c.subject.view.Handled log) (ha : c.subject.decider.load log = .ok a)
    (hanswer : c.subject.decider.answer c.request a.state = .ok fact) (hpos : 0 < position) :
    ∃ i, c.subject.view.projection.instruction
        ((c.subject.deed fact).event editor now position sequence) = .ok i ∧
      c.subject.view.key? c.slot = some i.key ∧
      (c.subject.view.Roots i.key ((c.subject.deed fact).event editor now position sequence) ∨
        ∃ e₀ ∈ log.events, c.subject.view.Roots i.key e₀) := by
  obtain ⟨key, i, hkey, hi, rfl, hput⟩ := instruction_deed hanswer editor now position sequence
  refine ⟨i, hi, hkey, ?_⟩
  rcases hput with ⟨row, rfl⟩ | hheld
  · exact .inl ⟨(admits_deed (Command.own_of_answer hanswer) hpos).2 rfl, row, hi, rfl⟩
  · refine .inr (h.shown c.slot i.key hkey ?_)
    unfold EventLog.ledger
    rw [c.subject_slot, EventLog.heldBy_of_load ha]
    exact hheld

theorem Handled.record (h : v.Handled log) (ha : c.subject.decider.load log = .ok a)
    (fit : c.subject.Fit a.state)
    (hanswer : c.subject.decider.answer c.request a.state = .ok fact)
    (hid : Text.allBlank (c.subject.deed fact).owner.id = false) :
    v.Handled (log.record (c.subject.deed fact) editor now) := by
  have hpos : (0 : Int) < log.events.length + 1 := by omega
  have hevents : (log.record (c.subject.deed fact) editor now).events
      = log.events ++ [(c.subject.deed fact).event editor now (log.events.length + 1)
          (log.head (c.subject.deed fact).owner.stream.kind
            (c.subject.deed fact).owner.stream.id + 1)] := rfl
  refine ⟨h.kept.record ha fit hanswer hid, ?_, ?_⟩
  · intro before e after hlog hadmits
    rw [hevents] at hlog
    rcases split_of_concat hlog with ⟨rfl, rfl, rfl⟩ | ⟨rest, -, hbefore⟩
    · obtain rfl := (admits_deed (Command.own_of_answer hanswer) hpos).1 hadmits
      obtain ⟨i, hi, -, hroot⟩ := h.root_deed ha hanswer hpos
      exact ⟨i, hi, hroot⟩
    · exact h.rooted before e rest hbefore hadmits
  · intro x key hkey hheld
    rw [h.kept.ledger_record ha hanswer] at hheld
    rw [hevents]
    by_cases hx : x = c.slot
    · subst hx
      by_cases hv : v = c.subject.view
      · subst hv
        obtain ⟨i, -, hkey', hroot⟩ := h.root_deed ha hanswer hpos
        cases hkey.symm.trans hkey'
        rcases hroot with hroot | ⟨e₀, he₀, hroot⟩
        · exact ⟨_, List.mem_append_right _ List.mem_cons_self, hroot⟩
        · exact ⟨e₀, List.mem_append_left _ he₀, hroot⟩
      · rw [← c.subject_slot] at hv
        cases (key?_eq_none hv).symm.trans hkey
    · unfold Ledger.set at hheld
      rw [Function.update_of_ne hx] at hheld
      obtain ⟨e₀, he₀, hroot⟩ := h.shown x key hkey hheld
      exact ⟨e₀, List.mem_append_left _ he₀, hroot⟩

end record

theorem Handled.land (h : v.Handled log) (c : Command) (editor : String) (now : Instant) :
    v.Handled (c.land editor now log) := by
  rcases h.kept.land_cases c editor now with hl | ⟨a, fact, ha, fit, hanswer, hid, hl⟩
  · rwa [hl]
  · rw [hl]
    exact h.record ha fit hanswer hid

theorem Handled.after (h : v.Handled log) (errands : List Errand) :
    v.Handled (log.after errands) := by
  induction errands generalizing log with
  | nil => exact h
  | cons x rest ih => exact ih (h.land x.command x.editor x.time)

/-- **Roots.** Commands lead to logs whose rows have roots. -/
theorem rooted_after (v : ViewKind) (h : log.events = []) (errands : List Errand) :
    v.Rooted (log.after errands) :=
  ((handled_of_events_eq_nil h).after errands).rooted

/-! ## How far a view can be folded -/

/-- A row that has a root among events that were folded and end no row is there. -/
theorem Roots.get? {key : v.Key} {es : List Event} {t : Table v.Key v.Entry} {e₀ : Event}
    (hroot : v.Roots key e₀) (h : v.projection.rowsAfter es = .ok t) (he : e₀ ∈ es)
    (hd : ∀ e ∈ es, ¬v.projection.Drops e) : ∃ row, t.get? key = some row := by
  obtain ⟨-, row, hi, rfl⟩ := hroot
  obtain ⟨held, hheld, -⟩ := v.lawful.reached_of_mem h he hd _ hi
  exact ⟨held, hheld⟩

/-- **Folds.** As long as no row has ended, the next event can be folded. -/
theorem Rooted.fold (h : v.Rooted log) (n : log.Numbered) {w : Int} {e : Event} {rest : List Event}
    {t : Table v.Key v.Entry} (hb : log.behind v.query w = e :: rest)
    (ht : v.projection.rowsAfter (log.covered v.query w) = .ok t)
    (hd : ∀ e ∈ log.covered v.query w, ¬v.projection.Drops e) :
    ∃ t', v.projection.fold t e = .ok t' := by
  obtain ⟨hmem, hadmits, hlt⟩ := EventLog.mem_behind_iff.1 (hb ▸ List.mem_cons_self)
  obtain ⟨before, after, hlog⟩ := List.append_of_mem hmem
  obtain ⟨i, hi, hroot⟩ := h before e after hlog hadmits
  obtain ⟨edit, hedit⟩ : ∃ edit, v.projection.edit t e = .ok edit := by
    unfold Projection.edit
    rw [hi]
    rcases hroot with ⟨-, row, hi', -⟩ | ⟨e₀, he₀, hroot⟩
    · cases hi.symm.trans hi'
      exact ⟨_, rfl⟩
    · have hcov := n.mem_covered_of_before hlog hb he₀ hroot.1
      obtain ⟨row, hrow⟩ := hroot.get? ht hcov hd
      exact Instruction.exists_edit hrow
  exact ⟨edit.apply t, Projection.fold_of_edit hedit⟩

end ViewKind
end Chronicle
