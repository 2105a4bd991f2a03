import Chronicle.Database.Column
import Chronicle.Proofs.View.Entry
/-!
# Limits and their column

The limit of a lockout policy has 64 unsigned bits in commands, events and rows, and a database has
a column of 64 signed bits for it. Commands accept every limit. Where one is beyond the column, the
row that shows it is refused, whatever the database holds, and what is in the log stays there.

* `LockoutColumns.exists_ofRow`, `LockoutColumns.ofRow_of_not_fits`, `LockoutColumns.fits_of_row`:
  the rows that have columns;
* `Event.limit?`, `Event.Stores`, **`Event.stores_iff`**: the events whose rows can be written;
* `Command.limit?`, `EventLog.limits`: the limits that carried-out commands set;
* `EventLog.Kept.carries_after`: these are the limits in the log;
* **`EventLog.stores_after`**: when every event of a log can be stored.
-/

namespace Chronicle

/-! ## Rows and columns -/

theorem Lifecycle.parse?_text (l : Lifecycle) : parse? l.text = some l := by
  cases l <;> decide

namespace LockoutColumns

variable {row : PolicyRow LockoutSettings}

/-- The column holds a limit. -/
def Fits (n : UInt64) : Prop := n.toNat ≤ Bound.int64

instance : DecidablePred Fits := fun n => inferInstanceAs (Decidable (n.toNat ≤ Bound.int64))

/-- A row whose limit fits has columns, and is read back from them. -/
theorem exists_ofRow (h : Fits row.settings.maxAttempts) :
    ∃ c, ofRow row = .ok c ∧ c.row = .ok row := by
  have hint : (Int64.ofNat row.settings.maxAttempts.toNat).toInt = row.settings.maxAttempts.toNat :=
    Int64.toInt_ofNat_of_lt (by unfold Fits Bound.int64 at h; omega)
  have hlimit : limit row.settings = .ok (Int64.ofNat row.settings.maxAttempts.toNat) := if_pos h
  refine ⟨_, by rw [ofRow, hlimit]; rfl, ?_⟩
  simp [LockoutColumns.row, hint, Lifecycle.parse?_text]

/-- A row whose limit does not fit is refused. -/
theorem ofRow_of_not_fits (h : ¬Fits row.settings.maxAttempts) :
    ofRow row = .error (.violation (.attemptsOutOfRange row.settings.maxAttempts.toNat)) := by
  have hlimit : limit row.settings = .error _ := if_neg h
  rw [ofRow, hlimit]
  rfl

/-- The limit of a row that is read from columns fits. -/
theorem fits_of_row {c : LockoutColumns} (h : c.row = .ok row) :
    Fits row.settings.maxAttempts := by
  unfold LockoutColumns.row at h
  split at h
  · cases h
  · split at h
    · cases h
    · cases h
      have hlt := c.maxAttempts.toInt_lt
      have hof : (UInt64.ofNat c.maxAttempts.toInt.toNat).toNat = c.maxAttempts.toInt.toNat :=
        UInt64.toNat_ofNat_of_lt' (by unfold UInt64.size; omega)
      unfold Fits Bound.int64
      dsimp only
      omega

end LockoutColumns

/-! ## Events -/

/-- The limit that an event of the policy context carries. -/
def PolicyEvent.limit? : PolicyEvent → Option UInt64
  | .lockout (.added s) => some s.maxAttempts
  | .lockout (.changed c) => c.maxAttempts
  | _ => none

namespace Event

/-- The limit that an event carries. -/
def limit? (e : Event) : Option UInt64 :=
  (PolicyEvent.codec.decode e).toOption.bind PolicyEvent.limit?

/-- Whatever rows a database holds, a row that the event asks to write has columns, and is read back
from them. -/
def Stores (e : Event) : Prop :=
  ∀ t : Table String (PolicyRow LockoutSettings),
    (∀ key row, t.get? key = some row → ∃ c : LockoutColumns, c.row = .ok row) →
      ∀ row, lockoutProjection.edit t e = .ok (.put row) →
        ∃ c, LockoutColumns.ofRow row = .ok c ∧ c.row = .ok row

section edit

variable {e : Event} {t : Table String (PolicyRow LockoutSettings)}
  {row : PolicyRow LockoutSettings} {n : UInt64}

/-- What an event of lockout policies asks of the rows, by what it carries. -/
theorem instruction_cases {i : Instruction String (PolicyRow LockoutSettings)}
    (h : lockoutProjection.instruction e = .ok i) :
    (∃ s, i = .put (PolicyRow.ofEvent e s) ∧ e.limit? = some s.maxAttempts) ∨
    (∃ missing c, i = .revise e.stream.id missing e.sequence (PolicyRow.revise e c) ∧
      e.limit? = LockoutChange.maxAttempts c) ∨
    i = .drop e.stream.id ∧ e.limit? = none := by
  rw [lockoutProjection, PolicyKind.instruction_projection] at h
  unfold PolicyKind.instruction at h
  unfold limit?
  cases hd : PolicyEvent.codec.decode e with
  | error err =>
    rw [hd] at h
    cases h
  | ok event =>
    rw [hd] at h
    cases event with
    | lockout fact =>
      cases fact with
      | added s =>
        cases h
        exact .inl ⟨s, rfl, rfl⟩
      | changed c =>
        cases h
        exact .inr (.inl ⟨_, c, rfl, rfl⟩)
      | removed =>
        cases h
        exact .inr (.inr ⟨rfl, rfl⟩)
    | _ => cases h

/-- An event that carries a limit asks something of the rows. -/
theorem exists_instruction_of_limit (h : e.limit? = some n) :
    ∃ i, lockoutProjection.instruction e = .ok i := by
  rw [lockoutProjection, PolicyKind.instruction_projection]
  unfold PolicyKind.instruction
  unfold limit? at h
  cases hd : PolicyEvent.codec.decode e with
  | error err =>
    rw [hd] at h
    cases h
  | ok event =>
    rw [hd] at h
    cases event with
    | lockout fact => cases fact <;> exact ⟨_, rfl⟩
    | _ => cases h

/-- A row to be written has the limit of the event or, if it carries none, the limit of the row that
was there. -/
theorem limit_of_edit (h : lockoutProjection.edit t e = .ok (.put row)) :
    e.limit? = some row.settings.maxAttempts ∨
      e.limit? = none ∧ ∃ held, t.get? e.stream.id = some held ∧
        row.settings.maxAttempts = held.settings.maxAttempts := by
  unfold Projection.edit at h
  cases hi : lockoutProjection.instruction e with
  | error err =>
    rw [hi] at h
    cases h
  | ok i =>
    rw [hi] at h
    rcases instruction_cases hi with ⟨s, rfl, hlimit⟩ | ⟨missing, c, rfl, hlimit⟩ | ⟨rfl, -⟩
    · cases h
      exact .inl hlimit
    · unfold Instruction.edit at h
      dsimp only at h
      split at h
      · cases h
      · rename_i held hheld
        split at h
        · cases h
        · cases h
          change _ = some (c.maxAttempts.getD held.settings.maxAttempts) ∨
            _ ∧ ∃ held', _ ∧ c.maxAttempts.getD held.settings.maxAttempts = _
          rw [hlimit]
          cases c.maxAttempts with
          | none => exact .inr ⟨rfl, held, hheld, rfl⟩
          | some n => exact .inl rfl
    · cases h

/-- A limit that an event carries is in a row that it asks to write. -/
theorem exists_edit_of_limit (h : e.limit? = some n) :
    ∃ t : Table String (PolicyRow LockoutSettings),
      (∀ key row, t.get? key = some row → ∃ c : LockoutColumns, c.row = .ok row) ∧
        ∃ row, lockoutProjection.edit t e = .ok (.put row) ∧ row.settings.maxAttempts = n := by
  obtain ⟨i, hi⟩ := exists_instruction_of_limit h
  unfold Projection.edit
  rw [hi]
  rcases instruction_cases hi with ⟨s, rfl, hlimit⟩ | ⟨missing, c, rfl, hlimit⟩ | ⟨-, hnone⟩
  · exact ⟨Index.empty, nofun, _, rfl, Option.some.inj (hlimit.symm.trans h)⟩
  · -- the row that a change finds is one sequence behind it, and has no limit of its own
    let held : PolicyRow LockoutSettings :=
      { PolicyRow.ofEvent e {} with sequence := e.sequence - 1 }
    have hfits : LockoutColumns.Fits held.settings.maxAttempts := Nat.zero_le _
    obtain ⟨columns, -, hcolumns⟩ := LockoutColumns.exists_ofRow hfits
    refine ⟨Index.empty.insert e.stream.id held, fun key row hrow => ?_,
      PolicyRow.revise e c held, ?_, ?_⟩
    · by_cases hk : key = e.stream.id
      · rw [hk, Index.get?_insert_self] at hrow
        exact ⟨columns, Option.some.inj hrow ▸ hcolumns⟩
      · rw [Index.get?_insert_of_ne hk] at hrow
        cases hrow
    · have hbehind : ¬e.sequence ≤ e.sequence - 1 := by omega
      unfold Instruction.edit
      dsimp only
      rw [Index.get?_insert_self]
      exact if_neg hbehind
    · change c.maxAttempts.getD _ = n
      rw [← hlimit, h]
      rfl
  · cases hnone.symm.trans h

/-- **Events.** The rows of an event can be written exactly if the limit fits that it carries. -/
theorem stores_iff : e.Stores ↔ ∀ n, e.limit? = some n → LockoutColumns.Fits n := by
  constructor
  · intro h n hn
    obtain ⟨t, held, row, hedit, rfl⟩ := exists_edit_of_limit hn
    obtain ⟨c, -, hrow⟩ := h t held row hedit
    exact LockoutColumns.fits_of_row hrow
  · intro h t held row hedit
    refine LockoutColumns.exists_ofRow ?_
    rcases limit_of_edit hedit with hlimit | ⟨-, old, hold, hmax⟩
    · exact h _ hlimit
    · obtain ⟨c, hc⟩ := held _ _ hold
      rw [hmax]
      exact LockoutColumns.fits_of_row hc

/-- Every row of an event is refused whose limit does not fit. -/
theorem ofRow_of_limit (h : e.limit? = some n) (hn : ¬LockoutColumns.Fits n)
    (hedit : lockoutProjection.edit t e = .ok (.put row)) :
    LockoutColumns.ofRow row = .error (.violation (.attemptsOutOfRange n.toNat)) := by
  rcases limit_of_edit hedit with hlimit | ⟨hnone, -⟩
  · cases h.symm.trans hlimit
    exact LockoutColumns.ofRow_of_not_fits hn
  · cases h.symm.trans hnone

end edit
end Event

/-! ## Commands -/

/-- The settings that a command asks for. -/
def PolicyCommand.settings? {S : Type} : PolicyCommand S → Option S
  | add s => some s
  | change s => some s
  | remove => none

/-- The limit that a command asks for. -/
def Command.limit? : Command → Option UInt64
  | ⟨.lockout _, r⟩ => (PolicyCommand.settings? (S := LockoutSettings) r).map (·.maxAttempts)
  | _ => none

/-- The limit that a deed carries. -/
def Deed.limit? : Deed → Option UInt64
  | policy _ e => e.limit?
  | member _ _ => none

theorem Deed.limit?_event (d : Deed) (editor : String) (now : Instant) (position sequence : Int) :
    (d.event editor now position sequence).limit? = d.limit? := by
  unfold Event.limit?
  cases d with
  | policy owner e =>
    rw [decode_policy]
    rfl
  | member iam e =>
    rw [(decode_foreign editor now position sequence).1]
    rfl

/-- The answer to a command leaves a policy with the settings that were asked for. A limit that it
carries is theirs, and it carries theirs unless the policy has this limit already. -/
theorem lockoutKind_answer {owner : Owner} {r : PolicyCommand LockoutSettings}
    {p : PolicyState LockoutSettings} {fact : PolicyEvent}
    (h : (lockoutKind.decider owner).answer r p = .ok fact) :
    ((lockoutKind.decider owner).apply fact p).held = r.settings? ∧
    (∀ n, fact.limit? = some n → ∃ s, r.settings? = some s ∧ s.maxAttempts = n) ∧
    ∀ s, r.settings? = some s → fact.limit? = some s.maxAttempts ∨
      ∃ current, p.held = some current ∧ current.maxAttempts = s.maxAttempts := by
  change (lockoutKind.answer owner r p).map lockoutKind.wrap = .ok fact at h
  cases ha : lockoutKind.answer owner r p with
  | error e =>
    rw [ha] at h
    cases h
  | ok event =>
    rw [ha] at h
    cases h
    rcases PolicyKind.answer_cases ha with ⟨s, rfl, -, rfl⟩ | ⟨s, c, rfl, hl, hb, rfl⟩ |
      ⟨rfl, -, -, rfl⟩
    · refine ⟨rfl, fun n hn => ⟨s, rfl, Option.some.inj hn⟩, fun s' hs => ?_⟩
      cases hs
      exact .inl rfl
    · have happly : LockoutSettings.apply c p.settings = s := LockoutSettings.apply_of_between hb
      have hmax : c.maxAttempts.getD p.settings.maxAttempts = s.maxAttempts :=
        congrArg LockoutSettings.maxAttempts happly
      refine ⟨(if_pos hl).trans (congrArg some happly), fun n hn => ⟨s, rfl, ?_⟩, fun s' hs => ?_⟩
      · have hn : c.maxAttempts = some n := hn
        rw [← hmax, hn, Option.getD_some]
      · cases hs
        change c.maxAttempts = some s.maxAttempts ∨ _
        cases hc : c.maxAttempts with
        | none =>
          rw [hc, Option.getD_none] at hmax
          exact .inr ⟨p.settings, if_pos hl, hmax⟩
        | some n =>
          rw [hc, Option.getD_some] at hmax
          exact .inl (congrArg some hmax)
    · exact ⟨rfl, nofun, nofun⟩

/-! ## Logs -/

namespace EventLog

/-- The limits that commands ask for that are carried out, when they are given one after the
other. -/
def limits (log : EventLog) : List Errand → List UInt64
  | [] => []
  | x :: rest =>
    match x.command.handle x.editor x.time log with
    | .error _ => limits log rest
    | .ok (_, log) => x.command.limit?.toList ++ limits log rest

/-- An event of the log carries a limit. -/
def Carries (log : EventLog) (n : UInt64) : Prop :=
  ∃ e ∈ log.events, e.limit? = some n

/-- The limit of every policy in effect is in the log. -/
def Accounted (log : EventLog) : Prop :=
  ∀ owner s, log.ledger (.lockout owner) = some s → log.Carries (LockoutSettings.maxAttempts s)

variable {log : EventLog} {n : UInt64}

theorem carries_record {d : Deed} {editor : String} {now : Instant} :
    (log.record d editor now).Carries n ↔ log.Carries n ∨ d.limit? = some n := by
  have hevents : (log.record d editor now).events = log.events ++ [d.event editor now _ _] := rfl
  unfold Carries
  rw [hevents]
  simp only [List.mem_append, List.mem_singleton, or_and_right, exists_or, exists_eq_left,
    Deed.limit?_event]

section record

variable {c : Command} {editor : String} {now : Instant}
  {a : Aggregate c.subject.State c.subject.Fact} {fact : c.subject.Fact}

/-- The limit of a command is in the log behind its answer, and no other limit comes with it. -/
theorem carries_record_answer (accounted : log.Accounted)
    (ha : c.subject.decider.load log = .ok a)
    (hanswer : c.subject.decider.answer c.request a.state = .ok fact) :
    (log.record (c.subject.deed fact) editor now).Carries n ↔
      log.Carries n ∨ c.limit? = some n := by
  rw [carries_record]
  have own := Command.own_of_answer hanswer
  obtain ⟨subject, r⟩ := c
  cases subject with
  | lockout owner =>
    obtain ⟨-, hasked, hcarried⟩ := lockoutKind_answer hanswer
    constructor
    · rintro (hc | hd)
      · exact .inl hc
      · obtain ⟨s, hs, rfl⟩ := hasked n hd
        exact .inr (congrArg (Option.map _) hs)
    · rintro (hc | hl)
      · exact .inl hc
      · obtain ⟨s, hs, rfl⟩ := Option.map_eq_some_iff.1 hl
        rcases hcarried s hs with hd | ⟨current, hheld, hmax⟩
        · exact .inr hd
        · -- the policy has this limit, so the event it has it from is in the log
          rw [← hmax]
          exact .inl (accounted owner current ((heldBy_of_load ha _).trans hheld))
  | orgIam owner =>
    obtain ⟨e, rfl⟩ := own
    exact Iff.rfl
  | mailText iam key => rcases own with ⟨content, rfl⟩ | ⟨change, rfl⟩ <;> exact Iff.rfl
  | members iam => exact Iff.rfl

/-- Behind an answer the limits in effect are in the log. -/
theorem Kept.accounted_record (h : log.Kept) (accounted : log.Accounted)
    (ha : c.subject.decider.load log = .ok a)
    (hanswer : c.subject.decider.answer c.request a.state = .ok fact) :
    (log.record (c.subject.deed fact) editor now).Accounted := by
  intro owner s hs
  rw [carries_record_answer accounted ha hanswer]
  rw [h.ledger_record ha hanswer] at hs
  by_cases hslot : Slot.lockout owner = c.slot
  · have hread : log.ledger.set c.slot
        (c.subject.read (c.subject.hear (c.subject.deed fact) a.state) c.slot) c.slot
          = c.subject.read (c.subject.hear (c.subject.deed fact) a.state) c.slot :=
      Function.update_self ..
    obtain ⟨subject, r⟩ := c
    cases subject with
    | lockout owner' =>
      cases hslot
      have hasked : PolicyCommand.settings? r = some s :=
        (lockoutKind_answer hanswer).1.symm.trans (hread.symm.trans hs)
      exact .inr (congrArg (Option.map _) hasked)
    | _ => cases hslot
  · unfold Ledger.set at hs
    rw [Function.update_of_ne hslot] at hs
    exact .inl (accounted owner s hs)

end record

/-- A command that is carried out brings its limit to the log, and a refusal brings nothing. -/
theorem Kept.carries_land (h : log.Kept) (accounted : log.Accounted) (c : Command)
    (editor : String) (now : Instant) :
    (c.land editor now log).Accounted ∧
      ((c.land editor now log).Carries n ↔
        log.Carries n ∨ n ∈ log.limits [⟨c, editor, now⟩]) := by
  obtain ⟨a, ha, -⟩ := h.loads c.subject
  unfold Command.land limits
  rw [Command.handle_of_load h.numbered ha]
  cases hanswer : c.subject.decider.answer c.request a.state with
  | error e => exact ⟨accounted, by simp [limits]⟩
  | ok fact =>
    dsimp only
    cases hvalid : validate log.schemas c.stream [(c.subject.deed fact).draft editor now] with
    | error e => exact ⟨accounted, by simp [limits]⟩
    | ok u =>
      refine ⟨h.accounted_record accounted ha hanswer, ?_⟩
      simp only [limits, List.append_nil, Option.mem_toList]
      exact carries_record_answer accounted ha hanswer

theorem limits_cons (log : EventLog) (x : Errand) (rest : List Errand) :
    log.limits (x :: rest)
      = log.limits [x] ++ (x.command.land x.editor x.time log).limits rest := by
  unfold Command.land
  simp only [limits]
  cases x.command.handle x.editor x.time log <;> simp

/-- The limits in a log are the limits that were in it, and those of the commands that were carried
out since. -/
theorem Kept.carries_after (h : log.Kept) (accounted : log.Accounted) (errands : List Errand) :
    (log.after errands).Carries n ↔ log.Carries n ∨ n ∈ log.limits errands := by
  induction errands generalizing log with
  | nil =>
    change log.Carries n ↔ log.Carries n ∨ n ∈ []
    rw [List.mem_nil_iff, or_false]
  | cons x rest ih =>
    obtain ⟨haccounted, hland⟩ := h.carries_land accounted x.command x.editor x.time
    have hrest := ih (h.land x.command x.editor x.time) haccounted
    rw [limits_cons, List.mem_append, ← or_assoc, ← hland]
    exact hrest

theorem accounted_of_events_eq_nil (h : log.events = []) : log.Accounted := by
  intro owner s hs
  rw [ledger_of_events_eq_nil h] at hs
  cases hs

end EventLog

/-- **Limits.** Commands set every limit that they ask for. The rows of the events that they leave
in a log can all be written exactly if each limit fits its column; where one does not, its event is
in the log, and every row that this event asks to write is refused. -/
theorem EventLog.stores_after (schemas : Option SchemaSet) (errands : List Errand) :
    let empty : EventLog := { schemas := schemas }
    let log := empty.after errands
    ((∀ e ∈ log.events, e.Stores) ↔ ∀ n ∈ empty.limits errands, LockoutColumns.Fits n) ∧
    ∀ n ∈ empty.limits errands, ¬LockoutColumns.Fits n →
      ∃ e ∈ log.events, e.limit? = some n ∧ ¬e.Stores ∧
        ∀ t row, lockoutProjection.edit t e = .ok (.put row) →
          LockoutColumns.ofRow row = .error (.violation (.attemptsOutOfRange n.toNat)) := by
  intro empty log
  have hkept : empty.Kept := kept_of_events_eq_nil rfl
  have hcarries : ∀ n, log.Carries n ↔ n ∈ empty.limits errands := fun n => by
    have hnone : ¬empty.Carries n := by
      rintro ⟨e, he, -⟩
      cases he
    rw [hkept.carries_after (accounted_of_events_eq_nil rfl), or_iff_right hnone]
  constructor
  · simp only [Event.stores_iff]
    constructor
    · intro h n hn
      obtain ⟨e, he, hlimit⟩ := (hcarries n).2 hn
      exact h e he n hlimit
    · intro h e he n hlimit
      exact h n ((hcarries n).1 ⟨e, he, hlimit⟩)
  · intro n hn hfits
    obtain ⟨e, he, hlimit⟩ := (hcarries n).2 hn
    exact ⟨e, he, hlimit, fun hs => hfits (Event.stores_iff.1 hs n hlimit),
      fun t row => Event.ofRow_of_limit hlimit hfits⟩

/-- A lockout policy with the least limit that does not fit. -/
def Errand.large : Errand :=
  ⟨⟨.lockout (.org "acme"), .add ⟨9223372036854775808, true⟩⟩, "admin", ⟨0⟩⟩

/-- The command is carried out, and the row of the event that it leaves cannot be written. -/
theorem EventLog.not_stores_of_large_limit :
    EventLog.fresh.limits [.large] = [9223372036854775808] ∧
      ∃ e ∈ (EventLog.fresh.after [.large]).events, ¬e.Stores := by
  have hlimits : EventLog.fresh.limits [.large] = [9223372036854775808] := by decide +kernel
  have hempty : EventLog.fresh.events = [] := rfl
  have hcarries := (kept_of_events_eq_nil hempty).carries_after (n := 9223372036854775808)
    (accounted_of_events_eq_nil hempty) [.large]
  obtain ⟨e, he, hlimit⟩ := hcarries.2 (.inr (hlimits ▸ List.mem_singleton_self _))
  have hlarge : ¬LockoutColumns.Fits 9223372036854775808 := by decide
  exact ⟨hlimits, e, he, fun h => hlarge (Event.stores_iff.1 h _ hlimit)⟩

end Chronicle
