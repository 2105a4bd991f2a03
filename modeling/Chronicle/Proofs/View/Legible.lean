import Chronicle.Proofs.Aggregate.Replay
import Chronicle.Proofs.Codec.Canonical
import Chronicle.Proofs.Command.Land
import Chronicle.Proofs.Loop.Position
import Chronicle.Proofs.View.Rooted
/-!
# What was checked can be read

Payloads are checked once, when they are appended, and read many times: by every aggregate that
loads and by every view that folds. The check and the readers go through the same registries, so
what passed the one is never stuck at the others, whoever appended it.

* `SchemaSet.exists_of_check`: the schema that a payload was accepted by;
* `EventLog.Checked`: the invariant of a log with schemas;
* `Event.Legible`: an event that both contexts can read, as far as its type is theirs;
* `Subject.exists_load`, `ViewKind.Takes`, `ViewKind.takes_of_legible`: loading and folding;
* **`EventLog.legible_of_tried`**.
-/

namespace Chronicle

/-! ## The check -/

theorem SchemaSet.exists_of_check {s : SchemaSet} {tag : String} {payload : Json}
    (h : s.check tag payload = .ok ()) :
    ∃ schema ∈ s, schema.knows tag = true ∧ schema.check tag payload = .ok () := by
  unfold check at h
  cases hf : s.find? fun schema => schema.knows tag with
  | none => simp [hf] at h
  | some schema =>
    rw [hf] at h
    have hk : schema.knows tag = true := by simpa using List.find?_some hf
    exact ⟨schema, List.mem_of_find?_eq_some hf, hk, h⟩

theorem Registry.exists_of_check {ε : Type} {r : Registry ε} {tag : String} {payload : Json}
    (h : r.schema.check tag payload = .ok ()) : ∃ e, r.decode tag payload = .ok e := by
  change (r.decode tag payload).map _ = .ok () at h
  cases hd : r.decode tag payload with
  | error err => simp [hd, Except.map] at h
  | ok e => exact ⟨e, rfl⟩

theorem Draft.validateAll_ok {schemas : SchemaSet} {drafts : List Draft} {d : Draft}
    (h : validateAll (some schemas) drafts = .ok ()) (hd : d ∈ drafts) :
    schemas.check d.tag d.payload = .ok () := by
  induction drafts with
  | nil => simp at hd
  | cons d₀ rest ih =>
    rw [validateAll] at h
    cases hv : d₀.validate (some schemas) with
    | error e => simp [hv] at h
    | ok u =>
      rw [hv] at h
      rcases List.mem_cons.1 hd with rfl | hd
      · unfold validate at hv
        split at hv
        · cases hv
        · exact hv
      · exact ih h hd

namespace EventLog

/-- The schemas of the log accept the payloads of all its events. -/
def Checked (log : EventLog) (schemas : SchemaSet) : Prop :=
  log.schemas = some schemas ∧ ∀ e ∈ log.events, schemas.check e.tag e.payload = .ok ()

theorem exists_draft_of_mem_place {stream : Stream} {count sequence : Int} {drafts : List Draft}
    {e : Event} (h : e ∈ place stream count sequence drafts) :
    ∃ d ∈ drafts, e.tag = d.tag ∧ e.payload = d.payload := by
  induction drafts generalizing count sequence with
  | nil => simp [place] at h
  | cons d rest ih =>
    rcases List.mem_cons.1 h with rfl | h
    · exact ⟨d, List.mem_cons_self, rfl, rfl⟩
    · obtain ⟨d', hd', hd⟩ := ih h
      exact ⟨d', List.mem_cons_of_mem _ hd', hd⟩

variable {log : EventLog} {schemas : SchemaSet}

theorem Checked.land (h : log.Checked schemas) (a : Attempt) : (a.land log).Checked schemas := by
  refine ⟨Attempt.land_schemas.trans h.1, ?_⟩
  cases ha : a.append log with
  | error e =>
    rw [Attempt.land_of_error ha]
    exact h.2
  | ok r =>
    rw [Attempt.land_of_ok ha]
    obtain ⟨hv, hstored, hlog, -⟩ := append_cases ha
    rw [hlog]
    intro e he
    rcases List.mem_append.1 he with he | he
    · exact h.2 e he
    · rw [hstored] at he
      obtain ⟨d, hd, htag, hpayload⟩ := exists_draft_of_mem_place he
      rw [htag, hpayload]
      rw [h.1] at hv
      -- the drafts are looked at only if the identity of the stream is in order
      unfold validate at hv
      split at hv
      · cases hv
      · split at hv
        · cases hv
        · split at hv
          · cases hv
          · exact Draft.validateAll_ok hv hd

theorem Checked.tried (h : log.Checked schemas) (attempts : List Attempt) :
    (log.tried attempts).Checked schemas := by
  induction attempts generalizing log with
  | nil => exact h
  | cons a rest ih => exact ih (h.land a)

end EventLog

/-! ## Legible events -/

/-- Either context can read the event, if its type is one of the context's. -/
structure Event.Legible (e : Event) : Prop where
  policy : e.tag ∈ PolicyEvent.tags → ∃ fact, PolicyEvent.codec.decode e = .ok fact
  member : e.tag ∈ MemberEvent.tags → ∃ fact, MemberEvent.codec.decode e = .ok fact

theorem PolicyEvent.decode_eq (e : Event) : codec.decode e = registry.decode e.tag e.payload := by
  rw [Codec.decode, codec]

theorem MemberEvent.decode_eq (e : Event) : codec.decode e = registry.decode e.tag e.payload := by
  rw [Codec.decode, codec]

theorem Event.legible_of_check {e : Event} {schemas : SchemaSet} (hs : schemas ⊆ contexts)
    (h : schemas.check e.tag e.payload = .ok ()) : e.Legible := by
  obtain ⟨schema, hm, hk, hc⟩ := SchemaSet.exists_of_check h
  have hm : schema = PolicyEvent.registry.schema ∨ schema = MemberEvent.registry.schema := by
    simpa [contexts] using hs hm
  constructor
  · intro htag
    rw [PolicyEvent.decode_eq]
    rcases hm with rfl | rfl
    · exact Registry.exists_of_check hc
    · rw [MemberEvent.not_knows htag] at hk
      cases hk
  · intro htag
    rw [MemberEvent.decode_eq]
    rcases hm with rfl | rfl
    · rw [PolicyEvent.not_knows htag] at hk
      cases hk
    · exact Registry.exists_of_check hc

/-! ## Loading -/

theorem Subject.exists_fact {s : Subject} {e : Event} (h : e.Legible)
    (hf : s.decider.follows e.tag = true) : ∃ fact, s.decider.codec.decode e = .ok fact := by
  cases s with
  | lockout owner =>
    exact h.policy (List.mem_append_left _ (List.mem_append_left _ (List.contains_iff_mem.1 hf)))
  | orgIam owner =>
    exact h.policy (List.mem_append_left _ (List.mem_append_right _ (List.contains_iff_mem.1 hf)))
  | mailText iam key => exact h.policy (List.mem_append_right _ (List.contains_iff_mem.1 hf))
  | members iam => exact h.member (List.contains_iff_mem.1 hf)

/-- **Loading.** Every aggregate loads from a log of legible events, and stands at the length of its
stream. -/
theorem Subject.exists_load {log : EventLog} (n : log.Numbered) (h : ∀ e ∈ log.events, e.Legible)
    (s : Subject) :
    ∃ a, s.decider.load log = .ok a ∧
      a.sequence = (log.ofStream s.stream.kind s.stream.id).length := by
  have hown : ∀ e ∈ log.ofStream s.stream.kind s.stream.id,
      e ∈ log.events ∧ e.stream.id = s.stream.id := by
    intro e he
    obtain ⟨hmem, hon⟩ := List.mem_filter.1 he
    simp only [EventLog.onStream, Bool.and_eq_true, beq_iff_eq] at hon
    exact ⟨hmem, hon.2⟩
  obtain ⟨a, ha⟩ := Decider.exists_replay (d := s.decider) (a := s.decider.fresh)
    (fun e he => (hown e he).2) (n.sequence s.stream.kind s.stream.id)
    fun e he hf => Subject.exists_fact (h e (hown e he).1) hf
  have hload : s.decider.load log = .ok a := by
    unfold Decider.load
    rw [n.history_eq]
    exact ha
  exact ⟨a, hload, (n.sequence_of_load hload).trans (n.head_eq ..)⟩

/-! ## Folding -/

/-- An instruction finds fault with nothing but the absence of the row that it changes. -/
def Instruction.Faults {κ ρ : Type} (view : String) (sequence : Int) : Instruction κ ρ → Prop
  | .revise _ missing _ _ => ∃ subject, missing = .violation (.missingRow view subject sequence)
  | _ => True

/-- The view that follows an event of the policy context. -/
def PolicyEvent.view : PolicyEvent → ViewKind
  | .lockout _ => .lockout
  | .orgIam _ => .orgIam
  | .mailTextAdded _ _ => .mailText
  | .mailTextChanged _ _ => .mailText

theorem PolicyEvent.tag_mem_view (e : PolicyEvent) : e.tag ∈ e.view.tags := by
  cases e with
  | lockout own => exact lockoutTags.of_mem_all own
  | orgIam own => exact orgIamTags.of_mem_all own
  | mailTextAdded key content => exact List.mem_cons_self
  | mailTextChanged key change => exact List.mem_cons_of_mem _ List.mem_cons_self

/-- Only a change can be refused, and only for want of its row. -/
theorem Instruction.edit_error {κ ρ : Type} [Row ρ κ] {find : κ → Option ρ} {i : Instruction κ ρ}
    {err : Error} (h : i.edit find = .error err) :
    ∃ key n change, i = .revise key err n change ∧ find key = none := by
  cases i with
  | put row => cases h
  | drop key => cases h
  | revise key missing n change =>
    rw [edit] at h
    cases hrow : find key with
    | none =>
      rw [hrow] at h
      cases h
      exact ⟨key, n, change, rfl, hrow⟩
    | some row =>
      rw [hrow] at h
      dsimp only at h
      split at h <;> cases h

namespace ViewKind

variable {v : ViewKind} {e : Event}

/-- The view takes an event in as it should, or the event changes a row that is not there and
nothing is written. -/
def Takes (v : ViewKind) (e : Event) : Prop :=
  ∀ (cycle delay : Duration) (s : Stores),
    (∃ s', (v.handler cycle delay).process s e = (s', none) ∧
      v.projection.fold (v.rows s) e = .ok (v.rows s')) ∨
    ∃ key subject, (v.rows s).get? key = none ∧ (v.handler cycle delay).process s e
      = (s, some (.violation (.missingRow v.view subject e.sequence)))

/-- Views that follow the same type of events are one. -/
theorem eq_of_mem_tags {v w : ViewKind} {t : String} (hv : t ∈ v.tags) (hw : t ∈ w.tags) :
    v = w := by
  by_contra hne
  exact tags_disjoint hne t hw hv

theorem view_of_decode {fact : PolicyEvent} (hd : PolicyEvent.codec.decode e = .ok fact)
    (ht : e.tag ∈ v.tags) : fact.view = v := by
  rw [PolicyEvent.decode_eq] at hd
  have htag : fact.tag = e.tag := PolicyEvent.tag_of_decode hd
  exact eq_of_mem_tags (htag ▸ fact.tag_mem_view) ht

theorem exists_settings_instruction {S C : Type} [Settings S C] {k : PolicyKind S C}
    {view : String} {fact : PolicyEvent} {own : SettingsEvent S C}
    (hd : PolicyEvent.codec.decode e = .ok fact) (hu : k.unwrap? fact = some own) :
    ∃ i, (k.projection view).instruction e = .ok i ∧ i.Faults view e.sequence := by
  rw [k.instruction_projection]
  unfold PolicyKind.instruction
  rw [hd]
  dsimp only
  rw [hu]
  cases own with
  | added settings => exact ⟨_, rfl, trivial⟩
  | changed change => exact ⟨_, rfl, _, rfl⟩
  | removed => exact ⟨_, rfl, trivial⟩

/-- A legible event whose type the view follows asks something of its rows. -/
theorem exists_instruction_of_legible (h : e.Legible) (ht : e.tag ∈ v.tags) :
    ∃ i, v.projection.instruction e = .ok i ∧ i.Faults v.view e.sequence := by
  cases v with
  | lockout =>
    obtain ⟨fact, hd⟩ := h.policy (List.mem_append_left _ (List.mem_append_left _ ht))
    have hview : fact.view = .lockout := view_of_decode hd ht
    cases fact with
    | lockout own => exact exists_settings_instruction hd rfl
    | _ => cases hview
  | orgIam =>
    obtain ⟨fact, hd⟩ := h.policy (List.mem_append_left _ (List.mem_append_right _ ht))
    have hview : fact.view = .orgIam := view_of_decode hd ht
    cases fact with
    | orgIam own => exact exists_settings_instruction hd rfl
    | _ => cases hview
  | mailText =>
    obtain ⟨fact, hd⟩ := h.policy (List.mem_append_right _ ht)
    have hview : fact.view = .mailText := view_of_decode hd ht
    change ∃ i, mailTextProjection.instruction e = .ok i ∧ _
    rw [mailTextProjection_instruction]
    unfold MailText.instruction
    rw [hd]
    cases fact with
    | mailTextAdded key content => exact ⟨_, rfl, trivial⟩
    | mailTextChanged key change => exact ⟨_, rfl, _, rfl⟩
    | _ => cases hview
  | member =>
    obtain ⟨fact, hd⟩ := h.member ht
    change ∃ i, memberProjection.instruction e = .ok i ∧ _
    rw [memberProjection_instruction]
    unfold Members.instruction
    rw [hd]
    cases fact with
    | added user roles => exact ⟨_, rfl, trivial⟩
    | changed user roles => exact ⟨_, rfl, _, rfl⟩
    | removed user => exact ⟨_, rfl, trivial⟩

/-- **Folding.** A view takes in every legible event that it follows. -/
theorem takes_of_legible (h : e.Legible) (ha : v.query.admits e = true) : v.Takes e := by
  rw [admits_query, Bool.and_eq_true, List.contains_iff_mem] at ha
  obtain ⟨i, hi, hfaults⟩ := exists_instruction_of_legible h ha.2
  intro cycle delay s
  unfold Handler.process
  have hedit : v.projection.edit (v.rows s) e = i.edit (v.rows s).get? := by
    unfold Projection.edit
    rw [hi]
  cases he : i.edit (v.rows s).get? with
  | ok edit =>
    obtain ⟨herror, hwrite⟩ := @handler_fold_of_edit v cycle delay s e edit (hedit.trans he)
    refine .inl ⟨_, Prod.ext rfl herror, ?_⟩
    unfold Projection.fold
    rw [hedit, he, hwrite]
    rfl
  | error err =>
    obtain ⟨herror, hwrite⟩ := @handler_fold_of_error v cycle delay s e err (hedit.trans he)
    obtain ⟨key, n, change, rfl, hrow⟩ := Instruction.edit_error he
    obtain ⟨subject, rfl⟩ := hfaults
    refine .inr ⟨key, subject, hrow, Prod.ext ?_ herror⟩
    change ((v.handler cycle delay).fold s e).write s = s
    rw [hwrite]
    rfl

end ViewKind

/-! ## Logs with schemas -/

/-- **Legible logs.** Whatever is tried on a log that checks the schemas of both contexts, in either
order: every aggregate loads and stands at the length of its stream, and every view takes in the
events that it follows, whatever its rows are. -/
theorem EventLog.legible_of_tried {schemas : SchemaSet} (hs : schemas.Perm contexts)
    (attempts : List Attempt) :
    let log := ({ schemas := some schemas } : EventLog).tried attempts
    (∀ s : Subject, ∃ a, s.decider.load log = .ok a ∧
      a.sequence = (log.ofStream s.stream.kind s.stream.id).length) ∧
    ∀ (v : ViewKind), ∀ e ∈ log.events, v.query.admits e = true → v.Takes e := by
  intro log
  have n : log.Numbered := (numbered_of_events_eq_nil rfl).tried attempts
  have hempty : Checked { schemas := some schemas } schemas := ⟨rfl, by simp⟩
  have hchecked : log.Checked schemas := hempty.tried attempts
  have hlegible : ∀ e ∈ log.events, e.Legible := fun e he =>
    Event.legible_of_check hs.subset (hchecked.2 e he)
  exact ⟨Subject.exists_load n hlegible, fun v e he ha =>
    ViewKind.takes_of_legible (hlegible e he) ha⟩

/-- A change that nothing was added before, written as an array, is taken; a text in its place is
not. The aggregate counts the change, and the view is asked for a row. -/
theorem EventLog.legible_of_tried_array :
    let acme := Subject.lockout (.org "acme")
    let change (payload : Json) : Draft := ⟨Uuid.nil, "policy.lockout.changed", payload, "eve", ⟨0⟩⟩
    let log := ({ schemas := some contexts.reverse } : EventLog).tried
      [⟨acme.stream, 0, [change (.arr [.int 5, .bool true])], 1⟩,
        ⟨acme.stream, 1, [change (.str "five")], 2⟩]
    contexts.reverse.Perm contexts ∧ (∃ a, acme.decider.load log = .ok a ∧ a.sequence = 1) ∧
      ∃ e ∈ log.events, ViewKind.lockout.query.admits e = true ∧ ViewKind.lockout.Takes e := by
  intro acme change log
  have hs : contexts.reverse.Perm contexts := List.reverse_perm contexts
  obtain ⟨hloads, htakes⟩ := legible_of_tried hs
    [⟨acme.stream, 0, [change (.arr [.int 5, .bool true])], 1⟩,
      ⟨acme.stream, 1, [change (.str "five")], 2⟩]
  have hlength : (log.ofStream acme.stream.kind acme.stream.id).length = 1 := by decide +kernel
  have hfollowed : log.events.any ViewKind.lockout.query.admits = true := by decide +kernel
  obtain ⟨a, ha, hsequence⟩ := hloads acme
  obtain ⟨e, he, hadmits⟩ := List.any_eq_true.1 hfollowed
  refine ⟨hs, ⟨a, ha, hsequence.trans ?_⟩, e, he, hadmits, htakes _ e he hadmits⟩
  exact congrArg Nat.cast hlength

end Chronicle
