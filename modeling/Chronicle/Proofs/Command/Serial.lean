import Mathlib.Data.List.Induction
import Chronicle.Proofs.Command.Decision
import Chronicle.Proofs.Command.Desk
/-!
# Callers are as good as one after the other

However the turns of many callers come, the log is the one that is reached by handling the commands
whose appends landed, one after the other in the order in which they landed.

* `EventLog.serially`: commands handled one after the other;
* `Desk.Prepared`, `Desk.Prepared.exists_after`: behind any turns the log is one that commands lead to;
* `Desk.Sound`: the invariant of a desk, and **`Desk.Sound.step`**;
* `Desk.Sound.landed_of_head_ne`: a stream that has moved on was appended to;
* `Desk.Tale`: how a call came to stand where it does, and `Desk.Tale.step`;
* **`Desk.serializable`**.
-/

namespace Chronicle

/-- Commands handled one after the other, up to the first that is refused, and what they give
back. -/
def EventLog.serially (log : EventLog) : List Errand → Except Error (List Applied × EventLog)
  | [] => .ok ([], log)
  | x :: rest =>
    match x.command.handle x.editor x.time log with
    | .error e => .error e
    | .ok (r, log) => (serially log rest).map fun s => (r :: s.1, s.2)

theorem EventLog.serially_concat {log log' log'' : EventLog} {xs : List Errand} {x : Errand}
    {rs : List Applied} {r : Applied} (h : log.serially xs = .ok (rs, log'))
    (hx : x.command.handle x.editor x.time log' = .ok (r, log'')) :
    log.serially (xs ++ [x]) = .ok (rs ++ [r], log'') := by
  induction xs generalizing log rs with
  | nil =>
    cases h
    rw [List.nil_append, serially, hx]
    rfl
  | cons y ys ih =>
    rw [serially] at h
    rw [List.cons_append, serially]
    cases hy : y.command.handle y.editor y.time log with
    | error e => simp [hy] at h
    | ok s =>
      obtain ⟨r₁, log₁⟩ := s
      rw [hy] at h
      dsimp only at h ⊢
      cases hs : log₁.serially ys with
      | error e => simp [hs, Except.map] at h
      | ok s =>
        obtain ⟨rs₁, log₂⟩ := s
        rw [hs] at h
        cases h
        rw [ih hs]
        rfl

/-! ## What a caller is about to append -/

/-- A default that is absent is added as its command adds it. -/
theorem DefaultPolicy.prepare_command {p : DefaultPolicy} {iam : String} {now : Instant}
    {history : List Event} {a : Attempt} (h : p.prepare iam now history = .ok (some a)) :
    (p.command iam).prepare seedingEditor now history = .ok a := by
  have hwith {S C : Type} [Settings S C] (k : PolicyKind S C) (settings : S)
      (h : prepareWith k settings iam now history = .ok (some a)) :
      (k.decider (.iam iam)).prepare (.add settings) seedingEditor now history = .ok a := by
    unfold prepareWith at h
    unfold Decider.prepare
    dsimp only at h
    cases hr : (k.decider (.iam iam)).replay (k.decider (.iam iam)).fresh history with
    | error e =>
      rw [hr] at h
      cases h
    | ok agg =>
      rw [hr] at h
      dsimp only at h ⊢
      split at h
      · cases h
      · cases hp : (k.decider (.iam iam)).perform agg (.add settings) seedingEditor now with
        | error e =>
          rw [hp] at h
          cases h
        | ok agg' =>
          rw [hp] at h
          cases h
          rfl
  cases p with
  | lockout => exact hwith lockoutKind {} h
  | orgIam => exact hwith orgIamKind orgIamSettings h

namespace Caller

variable {c : Caller} {now : Instant} {log : EventLog} {x : Errand} {a : Attempt}

/-- What a caller wants to append behind a turn that reads was decided on the log that it read. -/
theorem prepare_of_wants?_look (idle : c.wants? = none)
    (h : (c.look now log).wants? = some (x, a)) :
    x.command.prepare x.editor x.time
      (log.history x.command.stream.kind x.command.stream.id) = .ok a := by
  cases c with
  | asking c editor =>
    unfold look at h
    dsimp only at h
    cases hp : c.prepare editor now (log.history c.stream.kind c.stream.id) with
    | error e =>
      rw [hp] at h
      cases h
    | ok a' =>
      rw [hp] at h
      cases h
      exact hp
  | decided x' a' => cases idle
  | answered r => cases h
  | seeding iam asked s =>
    cases s with
    | reading p attempt added =>
      unfold look Seeder.read at h
      dsimp only at h
      have hstream : (p.command iam).stream = Seeder.stream iam := by
        cases p <;> rfl
      cases hp : p.prepare iam now
          (log.history (Seeder.stream iam).kind (Seeder.stream iam).id) with
      | error e =>
        rw [hp] at h
        cases h
      | ok found =>
        rw [hp] at h
        cases found with
        | none => cases p <;> cases h
        | some a' =>
          cases h
          rw [hstream]
          exact DefaultPolicy.prepare_command hp
    | appending p attempt added a' => cases idle
    | finished added => cases h
    | failed e => cases h

/-- Behind a turn that appends there is nothing to append. -/
theorem wants?_told {r : Except Error Applied} (h : c.wants? = some (x, a)) :
    (c.told r).wants? = none := by
  cases c with
  | asking c editor => cases h
  | decided x' a' => rfl
  | answered r => cases h
  | seeding iam asked s =>
    cases s with
    | reading p attempt added => cases h
    | appending p attempt added a' =>
      unfold told Seeder.append
      cases r with
      | ok applied => cases p <;> rfl
      | error e =>
        cases e with
        | conflict aggregate expected actual =>
          change wants? (.seeding iam asked (if attempt < seedingAttempts then _ else _ : _ × _).1)
            = none
          split <;> rfl
        | _ => rfl
    | finished added => cases h
    | failed e => cases h

end Caller

/-! ## The invariant -/

namespace Desk

variable {ι : Type} [DecidableEq ι] {d : Desk ι} {log₀ : EventLog} {i : ι} {now : Instant}

omit [DecidableEq ι] in
/-- What callers are about to append was decided on an earlier log. -/
structure Prepared (d : Desk ι) : Prop where
  numbered : d.log.Numbered
  decided : ∀ i x a, (d.callers i).wants? = some (x, a) → ∃ seen, x.Decided a seen d.log

omit [DecidableEq ι] in
theorem prepared_start {jobs : ι → Job} (n : log₀.Numbered) : (start now log₀ jobs).Prepared := by
  refine ⟨n, fun i x a h => ?_⟩
  change (Caller.start now (jobs i)).wants? = _ at h
  cases hj : jobs i <;> rw [hj] at h <;> cases h

/-- A caller moves, and what it is about to append is decided. -/
theorem Prepared.move (h : d.Prepared) {c : Caller}
    (hc : ∀ x a, c.wants? = some (x, a) → ∃ seen, x.Decided a seen d.log) :
    (d.move i c).Prepared := by
  refine ⟨h.numbered, fun j => ?_⟩
  change ∀ x a, (Function.update d.callers i c j).wants? = _ → _
  by_cases hj : j = i
  · subst hj
    rw [Function.update_self]
    exact hc
  · rw [Function.update_of_ne hj]
    exact h.decided j

/-- An append that was decided lands. -/
theorem Prepared.land (h : d.Prepared) {x : Errand} {a : Attempt} {events : List Event}
    {log : EventLog} (wants : (d.callers i).wants? = some (x, a))
    (ha : a.append d.log = .ok (events, log)) :
    (d.land i x (a.applied events) log).Prepared ∧
      x.command.handle x.editor x.time d.log = .ok (a.applied events, log) := by
  obtain ⟨seen, hx⟩ := h.decided i x a wants
  obtain ⟨-, -, hlog, -⟩ := EventLog.append_cases ha
  have hgrow : d.log.events <+: log.events := by
    rw [hlog]
    exact List.prefix_append ..
  have hschemas : log.schemas = d.log.schemas := by rw [hlog]
  refine ⟨⟨h.numbered.append ha, fun j y b hw => ?_⟩, hx.handle h.numbered ha⟩
  change (Function.update d.callers i _ j).wants? = _ at hw
  by_cases hj : j = i
  · subst hj
    rw [Function.update_self, Caller.wants?_told wants] at hw
    cases hw
  · rw [Function.update_of_ne hj] at hw
    obtain ⟨seen', hy⟩ := h.decided j y b hw
    exact ⟨seen', hy.mono hgrow hschemas⟩

/-- A turn leaves the log as it is, or handles a command on it. -/
theorem Prepared.step (h : d.Prepared) (i : ι) (now : Instant) :
    (d.step i now).Prepared ∧ ((d.step i now).log = d.log ∨
      ∃ x : Errand, (d.step i now).log = x.command.land x.editor x.time d.log) := by
  rcases d.step_cases i now with ⟨idle, hs⟩ | ⟨x, a, e, wants, -, hs⟩ |
    ⟨x, a, events, log, wants, ha, hs⟩
  · rw [hs]
    exact ⟨h.move fun x a hw => ⟨d.log, h.numbered, List.prefix_rfl, rfl,
      Caller.prepare_of_wants?_look idle hw⟩, .inl rfl⟩
  · rw [hs]
    refine ⟨h.move fun y b hw => ?_, .inl rfl⟩
    rw [Caller.wants?_told wants] at hw
    cases hw
  · rw [hs]
    obtain ⟨hland, hhandle⟩ := h.land wants ha
    refine ⟨hland, .inr ⟨x, ?_⟩⟩
    unfold Command.land
    rw [hhandle]
    rfl

/-- **Turns.** The log behind any turns is one that commands lead to, one after the other. -/
theorem Prepared.exists_after (h : d.Prepared) (turns : List (ι × Instant)) :
    ∃ errands, (d.run turns).log = d.log.after errands := by
  induction turns generalizing d with
  | nil => exact ⟨[], rfl⟩
  | cons t rest ih =>
    obtain ⟨hstep, hlog⟩ := h.step t.1 t.2
    obtain ⟨errands, hrest⟩ := ih hstep
    rcases hlog with hsame | ⟨x, hx⟩
    · exact ⟨errands, hrest.trans (congrArg (EventLog.after · errands) hsame)⟩
    · exact ⟨x :: errands, hrest.trans (congrArg (EventLog.after · errands) hx)⟩

omit [DecidableEq ι] in
/-- What holds of a desk that started on `log₀`: what its callers are about to append was decided on
an earlier log, and what has landed is what a serial run comes to. -/
structure Sound (log₀ : EventLog) (d : Desk ι) : Prop where
  numbered : d.log.Numbered
  schemas : d.log.schemas = some contexts
  decided : ∀ i x a, (d.callers i).wants? = some (x, a) → ∃ seen, x.Decided a seen d.log
  serial : log₀.serially (d.landed.map (·.errand)) = .ok (d.landed.map (·.applied), d.log)

omit [DecidableEq ι] in
theorem Sound.prepared (h : d.Sound log₀) : d.Prepared :=
  ⟨h.numbered, h.decided⟩

omit [DecidableEq ι] in
theorem sound_start {jobs : ι → Job} (n : log₀.Numbered) (schemas : log₀.schemas = some contexts) :
    (start now log₀ jobs).Sound log₀ :=
  ⟨n, schemas, (prepared_start n).decided, rfl⟩

/-- **Turns** keep the invariant. -/
theorem Sound.step (h : d.Sound log₀) (i : ι) (now : Instant) : (d.step i now).Sound log₀ := by
  obtain ⟨hnum, hdec⟩ := (h.prepared.step i now).1
  rcases d.step_cases i now with ⟨-, hs⟩ | ⟨x, a, e, -, -, hs⟩ |
    ⟨x, a, events, log, wants, ha, hs⟩
  · rw [hs] at hnum hdec ⊢
    exact ⟨hnum, h.schemas, hdec, h.serial⟩
  · rw [hs] at hnum hdec ⊢
    exact ⟨hnum, h.schemas, hdec, h.serial⟩
  · rw [hs] at hnum hdec ⊢
    obtain ⟨-, -, hlog, -⟩ := EventLog.append_cases ha
    refine ⟨hnum, ?_, hdec, ?_⟩
    · change log.schemas = _
      rw [hlog]
      exact h.schemas
    · change log₀.serially ((d.landed ++ [_]).map _) = .ok ((d.landed ++ [_]).map _, log)
      rw [List.map_append, List.map_append]
      exact EventLog.serially_concat h.serial (h.prepared.land wants ha).2

theorem Sound.run (h : d.Sound log₀) (turns : List (ι × Instant)) : (d.run turns).Sound log₀ := by
  induction turns generalizing d with
  | nil => exact h
  | cons t rest ih => exact ih (h.step t.1 t.2)

/-! ## Streams that move on -/

/-- A turn takes nothing away from the log and from what has landed. A stream on which it lands
nothing has the same head behind it. -/
theorem Sound.step_landed (h : d.Sound log₀) (i : ι) (now : Instant) :
    d.log.events <+: (d.step i now).log.events ∧
      ∃ new, (d.step i now).landed = d.landed ++ new ∧
        ∀ kind id, (∀ l ∈ new, ¬(l.errand.command.stream.kind = kind ∧
            l.errand.command.stream.id = id)) →
          (d.step i now).log.head kind id = d.log.head kind id := by
  rcases d.step_cases i now with ⟨-, hs⟩ | ⟨x, a, e, -, -, hs⟩ |
    ⟨x, a, events, log, wants, ha, hs⟩
  · rw [hs]
    exact ⟨List.prefix_rfl, [], (List.append_nil _).symm, fun _ _ _ => rfl⟩
  · rw [hs]
    exact ⟨List.prefix_rfl, [], (List.append_nil _).symm, fun _ _ _ => rfl⟩
  · rw [hs]
    obtain ⟨seen, hx⟩ := h.decided i x a wants
    obtain ⟨fact, hstream, -, -⟩ := Command.prepare_cases hx.numbered hx.prepare
    obtain ⟨-, hevents, hlog, -⟩ := EventLog.append_cases ha
    refine ⟨?_, _, rfl, fun kind id hnew => ?_⟩
    · change _ <+: log.events
      rw [hlog]
      exact List.prefix_append ..
    · have hne := hnew _ (List.mem_singleton_self _)
      change log.head kind id = _
      rw [hlog]
      unfold EventLog.head
      rw [List.filter_append, hevents, hstream, EventLog.filter_place_of_ne hne, List.append_nil]

/-- **Streams.** If a stream has another head behind some turns, something has landed on it. -/
theorem Sound.landed_of_head_ne (h : d.Sound log₀) (turns : List (ι × Instant)) :
    ∃ new, (d.run turns).landed = d.landed ++ new ∧
      ∀ kind id, (d.run turns).log.head kind id ≠ d.log.head kind id →
        ∃ l ∈ new, l.errand.command.stream.kind = kind ∧ l.errand.command.stream.id = id := by
  induction turns generalizing d with
  | nil => exact ⟨[], (List.append_nil _).symm, fun _ _ hne => absurd rfl hne⟩
  | cons t rest ih =>
    obtain ⟨-, new, hnew, hhead⟩ := h.step_landed t.1 t.2
    obtain ⟨more, hmore, hrest⟩ := ih (h.step t.1 t.2)
    refine ⟨new ++ more, ?_, fun kind id hne => ?_⟩
    · rw [← List.append_assoc, ← hnew]
      exact hmore
    · by_cases hstep : (d.step t.1 t.2).log.head kind id = d.log.head kind id
      · obtain ⟨l, hl, hs⟩ := hrest kind id fun heq => hne (heq.trans hstep)
        exact ⟨l, List.mem_append_right _ hl, hs⟩
      · by_contra hnone
        refine hstep (hhead kind id fun l hl hs => hnone ⟨l, List.mem_append_left _ hl, hs⟩)

/-! ## Who has moved -/

@[simp] theorem landedBy_move (d : Desk ι) (i j : ι) (c : Caller) :
    (d.move i c).landedBy j = d.landedBy j :=
  rfl

theorem landedBy_land (d : Desk ι) (i j : ι) (x : Errand) (r : Applied) (log : EventLog) :
    (d.land i x r log).landedBy j = d.landedBy j ++ if i = j then [⟨i, x, r⟩] else [] := by
  unfold landedBy land
  rw [List.filter_append]
  by_cases h : i = j <;> simp [h]

/-- The turn of another caller. -/
theorem step_of_ne (d : Desk ι) {i j : ι} (h : i ≠ j) (now : Instant) :
    (d.step i now).callers j = d.callers j ∧ (d.step i now).landedBy j = d.landedBy j := by
  rcases d.step_cases i now with ⟨-, hs⟩ | ⟨x, a, e, -, -, hs⟩ | ⟨x, a, events, log, -, -, hs⟩
  · rw [hs]
    exact ⟨Function.update_of_ne h.symm .., rfl⟩
  · rw [hs]
    exact ⟨Function.update_of_ne h.symm .., rfl⟩
  · rw [hs, landedBy_land, if_neg h, List.append_nil]
    exact ⟨Function.update_of_ne h.symm .., rfl⟩

/-! ## The tale of a call -/

/-- A call was refused as its command is when it is handled alone on the log that the call read. -/
def RefusedAlone (d₀ : Desk ι) (turns : List (ι × Instant)) (i : ι) (c : Command) (editor : String)
    (e : Error) : Prop :=
  ∃ before now after, turns = before ++ (i, now) :: after ∧
    (d₀.run before).callers i = .asking c editor ∧
    c.handle editor now (d₀.run before).log = .error e

/-- Between the turn in which a call read its stream and the turn in which it came to append, some
other caller's append has landed on this stream. -/
def Overtaken (d₀ : Desk ι) (turns : List (ι × Instant)) (i : ι) (c : Command) (editor : String) :
    Prop :=
  ∃ before now between now' after,
    turns = before ++ (i, now) :: (between ++ (i, now') :: after) ∧
    (d₀.run before).callers i = .asking c editor ∧
    (∃ a, (d₀.run (before ++ (i, now) :: between)).callers i = .decided ⟨c, editor, now⟩ a) ∧
    ∃ new, (d₀.run (before ++ (i, now) :: between)).landed = (d₀.run before).landed ++ new ∧
      ∃ l ∈ new, l.who ≠ i ∧ l.errand.command.stream.kind = c.stream.kind ∧
        l.errand.command.stream.id = c.stream.id

/-- How a call of a command came to stand where it does. -/
def Tale (d₀ : Desk ι) (turns : List (ι × Instant)) (i : ι) (c : Command) (editor : String) : Prop :=
  match (d₀.run turns).callers i with
  | .asking c' editor' => c' = c ∧ editor' = editor ∧ (d₀.run turns).landedBy i = []
  | .decided x a => (d₀.run turns).landedBy i = [] ∧
      ∃ before now between, turns = before ++ (i, now) :: between ∧ x = ⟨c, editor, now⟩ ∧
        (d₀.run before).callers i = .asking c editor ∧
        x.Decided a (d₀.run before).log (d₀.run turns).log
  | .answered (.ok r) => ∃ now, (d₀.run turns).landedBy i = [⟨i, ⟨c, editor, now⟩, r⟩]
  | .answered (.error e) => (d₀.run turns).landedBy i = [] ∧
      ((e.isConflict = false ∧ RefusedAlone d₀ turns i c editor e) ∨
        (e.isConflict = true ∧ Overtaken d₀ turns i c editor))
  | .seeding .. => False

section tale

variable {d₀ : Desk ι} {turns : List (ι × Instant)} {c : Command} {editor : String} {e : Error}
  {t : ι × Instant}

theorem RefusedAlone.concat (h : RefusedAlone d₀ turns i c editor e) :
    RefusedAlone d₀ (turns ++ [t]) i c editor e := by
  obtain ⟨before, now, after, rfl, hb, he⟩ := h
  exact ⟨before, now, after ++ [t], by simp, hb, he⟩

theorem Overtaken.concat (h : Overtaken d₀ turns i c editor) :
    Overtaken d₀ (turns ++ [t]) i c editor := by
  obtain ⟨before, now, between, now', after, rfl, hb, hd, hl⟩ := h
  exact ⟨before, now, between, now', after ++ [t], by simp, hb, hd, hl⟩

/-- The turn of another caller does not touch the tale. -/
theorem Tale.other (h : Tale d₀ turns i c editor) (sound : d₀.Sound log₀) {j : ι} (hj : j ≠ i)
    (now : Instant) : Tale d₀ (turns ++ [(j, now)]) i c editor := by
  obtain ⟨hcaller, hlanded⟩ := (d₀.run turns).step_of_ne hj now
  have hs := sound.run turns
  unfold Tale at h ⊢
  rw [run_concat, hcaller, hlanded]
  cases hc : (d₀.run turns).callers i with
  | asking c' editor' =>
    rw [hc] at h
    exact h
  | decided x a =>
    rw [hc] at h
    obtain ⟨hnone, before, now₁, between, hturns, hx, hb, hdecided⟩ := h
    refine ⟨hnone, before, now₁, between ++ [(j, now)], ?_, hx, hb, ?_⟩
    · rw [hturns, List.append_assoc, List.cons_append]
    · refine hdecided.mono (hs.step_landed j now).1 ?_
      rw [hs.schemas, (hs.step j now).schemas]
  | answered r =>
    rw [hc] at h
    cases r with
    | ok r => exact h
    | error e => exact h.imp_right fun h => h.imp (fun h => ⟨h.1, h.2.concat⟩) fun h =>
        ⟨h.1, h.2.concat⟩
  | seeding iam asked s =>
    rw [hc] at h
    exact h

/-- The turn in which a call reads its stream. -/
theorem Tale.ask (h : Tale d₀ turns i c editor) (sound : d₀.Sound log₀) {c' : Command}
    {editor' : String} (hc : (d₀.run turns).callers i = .asking c' editor') (now : Instant) :
    Tale d₀ (turns ++ [(i, now)]) i c editor := by
  unfold Tale at h ⊢
  rw [hc] at h
  obtain ⟨rfl, rfl, hnone⟩ := h
  have hidle : ((d₀.run turns).callers i).wants? = none := by
    rw [hc]
    rfl
  rw [run_concat, step_of_idle hidle, callers_move_self, landedBy_move, hc, Caller.look]
  cases hp : c'.prepare editor' now
      ((d₀.run turns).log.history c'.stream.kind c'.stream.id) with
  | error e =>
    refine ⟨hnone, .inl ⟨Command.isConflict_of_prepare hp, turns, now, [], rfl, hc, ?_⟩⟩
    unfold Command.handle
    rw [hp]
  | ok a =>
    exact ⟨hnone, turns, now, [], rfl, rfl, hc, (sound.run turns).numbered, List.prefix_rfl, rfl, hp⟩

/-- The turn in which a call appends. -/
theorem Tale.append (h : Tale d₀ turns i c editor) (sound : d₀.Sound log₀) {x : Errand}
    {a : Attempt} (hc : (d₀.run turns).callers i = .decided x a) (now : Instant) :
    Tale d₀ (turns ++ [(i, now)]) i c editor := by
  have hs := sound.run turns
  unfold Tale at h
  rw [hc] at h
  obtain ⟨hnone, before, now₁, between, hturns, rfl, hb, hdecided⟩ := h
  have hwants : ((d₀.run turns).callers i).wants? = some (⟨c, editor, now₁⟩, a) := by rw [hc]; rfl
  unfold Tale
  rw [run_concat]
  cases ha : a.append (d₀.run turns).log with
  | ok r =>
    obtain ⟨events, log⟩ := r
    rw [step_of_landed hwants ha, callers_land_self, landedBy_land, if_pos rfl, hnone, hc]
    exact ⟨now₁, rfl⟩
  | error e =>
    rw [step_of_refused hwants ha, callers_move_self, landedBy_move, hc]
    refine ⟨hnone, ?_⟩
    rcases hdecided.refused hs.schemas ha with ⟨hno, halone⟩ | ⟨hyes, hhead⟩
    · refine .inl ⟨hno, before, now₁, between ++ [(i, now)], ?_, hb, halone⟩
      rw [hturns, List.append_assoc, List.cons_append]
    · refine .inr ⟨hyes, before, now₁, between, now, [], ?_, hb, ⟨a, hturns ▸ hc⟩, ?_⟩
      · rw [hturns, List.append_assoc, List.cons_append]
      · obtain ⟨new, hnew, hl⟩ := (sound.run before).landed_of_head_ne ((i, now₁) :: between)
        rw [← run_append, ← hturns] at hnew hl
        obtain ⟨l, hl, hkind, hid⟩ := hl _ _ hhead
        rw [← hturns]
        refine ⟨new, hnew, l, hl, fun hwho => ?_, hkind, hid⟩
        have hmem : l ∈ (d₀.run turns).landedBy i := by
          refine List.mem_filter.2 ⟨?_, by simpa using hwho⟩
          rw [hnew]
          exact List.mem_append_right _ hl
        rw [hnone] at hmem
        cases hmem

/-- **Turns** go on with the tale of a call. -/
theorem Tale.step (h : Tale d₀ turns i c editor) (sound : d₀.Sound log₀) (j : ι) (now : Instant) :
    Tale d₀ (turns ++ [(j, now)]) i c editor := by
  by_cases hj : j = i
  · subst hj
    cases hc : (d₀.run turns).callers j with
    | asking c' editor' => exact h.ask sound hc now
    | decided x a => exact h.append sound hc now
    | answered r =>
      have hidle : ((d₀.run turns).callers j).wants? = none := by
        rw [hc]
        rfl
      have hlook : ((d₀.run turns).callers j).look now (d₀.run turns).log = .answered r := by
        rw [hc]
        rfl
      unfold Tale at h ⊢
      rw [run_concat, step_of_idle hidle, callers_move_self, landedBy_move, hlook]
      rw [hc] at h
      cases r with
      | ok r => exact h
      | error e => exact h.imp_right fun h => h.imp (fun h => ⟨h.1, h.2.concat⟩) fun h =>
          ⟨h.1, h.2.concat⟩
    | seeding iam asked s =>
      unfold Tale at h
      rw [hc] at h
      exact h.elim
  · exact h.other sound hj now

/-- The tale of a call, behind every list of turns. -/
theorem tale_run (sound : d₀.Sound log₀) (hc : d₀.callers i = .asking c editor)
    (hlanded : d₀.landed = []) (turns : List (ι × Instant)) : Tale d₀ turns i c editor := by
  induction turns using List.reverseRecOn with
  | nil =>
    have hnone : (d₀.run []).landedBy i = [] := by
      change List.filter _ d₀.landed = []
      rw [hlanded]
      rfl
    have hstart : (d₀.run []).callers i = .asking c editor := hc
    unfold Tale
    rw [hstart]
    exact ⟨rfl, rfl, hnone⟩
  | append_singleton turns t ih => exact ih.step sound t.1 t.2

/-- A call that has landed gives back what it landed. -/
theorem Tale.answered_of_mem (h : Tale d₀ turns i c editor) {l : Landing ι}
    (hl : l ∈ (d₀.run turns).landedBy i) :
    (d₀.run turns).callers i = .answered (.ok l.applied) := by
  have hne : (d₀.run turns).landedBy i ≠ [] := List.ne_nil_of_mem hl
  unfold Tale at h
  cases hc : (d₀.run turns).callers i with
  | asking c' editor' =>
    rw [hc] at h
    exact absurd h.2.2 hne
  | decided x a =>
    rw [hc] at h
    exact absurd h.1 hne
  | answered r =>
    rw [hc] at h
    cases r with
    | ok r =>
      obtain ⟨now, hr⟩ := h
      rw [hr] at hl
      rw [List.mem_singleton.1 hl]
    | error e => exact absurd h.1 hne
  | seeding iam asked s =>
    rw [hc] at h
    exact h.elim

/-- A call that is carried out has landed once. -/
theorem Tale.landedBy_of_ok (h : Tale d₀ turns i c editor) {r : Applied}
    (hr : (d₀.run turns).callers i = .answered (.ok r)) :
    ∃ now, (d₀.run turns).landedBy i = [⟨i, ⟨c, editor, now⟩, r⟩] := by
  unfold Tale at h
  rw [hr] at h
  exact h

/-- A call that is refused has landed nothing, and for a reason. -/
theorem Tale.refused_of_error (h : Tale d₀ turns i c editor)
    (he : (d₀.run turns).callers i = .answered (.error e)) :
    (d₀.run turns).landedBy i = [] ∧
      (e.isConflict = false → RefusedAlone d₀ turns i c editor e) ∧
      (e.isConflict = true → Overtaken d₀ turns i c editor) := by
  unfold Tale at h
  rw [he] at h
  obtain ⟨hnone, ⟨hno, halone⟩ | ⟨hyes, hover⟩⟩ := h
  · refine ⟨hnone, fun _ => halone, fun hyes => ?_⟩
    rw [hno] at hyes
    cases hyes
  · refine ⟨hnone, fun hno => ?_, fun _ => hover⟩
    rw [hyes] at hno
    cases hno

end tale

end Desk

/-! ## Seeders -/

/-- How many defaults a seeder has added, unless it has given up. -/
def Seeder.added? : Seeder → Option Nat
  | .reading _ _ added => some added
  | .appending _ _ added _ => some added
  | .finished added => some added
  | .failed _ => none

theorem Seeder.added?_read {s : Seeder} {iam : String} {now : Instant} {history : List Event}
    {n : Nat} (h : (s.read iam now (.ok history)).1.added? = some n) : s.added? = some n := by
  cases s with
  | reading p attempt added =>
    unfold read at h
    dsimp only at h
    cases hp : p.prepare iam now history with
    | error e =>
      rw [hp] at h
      cases h
    | ok found =>
      rw [hp] at h
      cases found with
      | none => cases p <;> exact h
      | some a => exact h
  | _ => exact h

theorem Seeder.added?_append_error {s : Seeder} {e : Error} {n : Nat}
    (h : (s.append (.error e)).1.added? = some n) : s.added? = some n := by
  cases s with
  | appending p attempt added a =>
    unfold append at h
    cases e with
    | conflict aggregate expected actual =>
      dsimp only at h
      split at h
      · exact h
      · cases h
    | _ => cases h
  | _ => exact h

namespace Desk

variable {ι : Type} [DecidableEq ι] {d : Desk ι} {log₀ : EventLog} {i : ι} {iam : String}

/-- What a seeder has appended: defaults of its instance, and as many as it counts. -/
def Sown (d : Desk ι) (i : ι) (iam : String) : Prop :=
  ∃ asked s, d.callers i = .seeding iam asked s ∧
    (∀ l ∈ d.landedBy i, l.errand.editor = seedingEditor ∧ ∃ p, l.errand.command =
      DefaultPolicy.command p iam) ∧
    ∀ n, s.added? = some n → (d.landedBy i).length = n

theorem Sown.step (h : d.Sown i iam) (j : ι) (now : Instant) : (d.step j now).Sown i iam := by
  obtain ⟨asked, s, hs, hdefaults, hcount⟩ := h
  by_cases hj : j = i
  · subst hj
    rcases d.step_cases j now with ⟨-, hstep⟩ | ⟨x, a, e, wants, -, hstep⟩ |
      ⟨x, a, events, log, wants, -, hstep⟩
    · refine ⟨now, (s.read iam now
          (.ok (d.log.history (Seeder.stream iam).kind (Seeder.stream iam).id))).1, ?_, ?_⟩
      · rw [hstep, callers_move_self, hs]
        rfl
      · rw [hstep, landedBy_move]
        exact ⟨hdefaults, fun n hn => hcount n (Seeder.added?_read hn)⟩
    · refine ⟨asked, (s.append (.error e)).1, ?_, ?_⟩
      · rw [hstep, callers_move_self, hs]
        rfl
      · rw [hstep, landedBy_move]
        exact ⟨hdefaults, fun n hn => hcount n (Seeder.added?_append_error hn)⟩
    · rw [hs] at wants
      cases s with
      | appending p attempt added a' =>
        cases wants
        refine ⟨asked, (Seeder.next p (added + 1)).1, ?_, ?_⟩
        · rw [hstep, callers_land_self, hs]
          rfl
        · rw [hstep, landedBy_land, if_pos rfl]
          refine ⟨fun l hl => ?_, fun n hn => ?_⟩
          · rcases List.mem_append.1 hl with hl | hl
            · exact hdefaults l hl
            · rw [List.mem_singleton.1 hl]
              exact ⟨rfl, p, rfl⟩
          · have hnext : n = added + 1 := by
              cases p <;> cases hn <;> rfl
            rw [List.length_append, hcount added rfl, hnext]
            rfl
      | reading p attempt added => cases wants
      | finished added => cases wants
      | failed e => cases wants
  · obtain ⟨hcaller, hlanded⟩ := d.step_of_ne hj now
    refine ⟨asked, s, hcaller.trans hs, ?_⟩
    rw [hlanded]
    exact ⟨hdefaults, hcount⟩

theorem Sown.run (h : d.Sown i iam) (turns : List (ι × Instant)) : (d.run turns).Sown i iam := by
  induction turns generalizing d with
  | nil => exact h
  | cons t rest ih => exact ih (h.step t.1 t.2)

/-! ## Serializability -/

/-- **Serializability.** Let callers with commands and seeders come to a log that any appends have
led to, and let their turns come in any order. The log behind them is the one that is reached by
handling the commands of the appends that landed one after the other, and these give back the same.
A call lands at most once, and then this is what it gives back; one that ends in an error has landed
nothing. If the error is no conflict, the call would have ended in it where it read its stream; if
it is one, another append has landed on this stream between its read and its append. What a seeder
has landed are the defaults of its instance, as many as it counts. -/
theorem serializable (jobs : ι → Job) (attempts : List Attempt) (now : Instant)
    (turns : List (ι × Instant)) :
    let log₀ := EventLog.fresh.tried attempts
    let d₀ := start now log₀ jobs
    let d := d₀.run turns
    log₀.serially (d.landed.map (·.errand)) = .ok (d.landed.map (·.applied), d.log) ∧
    (∀ i c editor, jobs i = .command c editor →
      (∀ l ∈ d.landedBy i, d.callers i = .answered (.ok l.applied)) ∧
      (∀ r, d.callers i = .answered (.ok r) →
        ∃ at_, d.landedBy i = [⟨i, ⟨c, editor, at_⟩, r⟩]) ∧
      (∀ e, d.callers i = .answered (.error e) → d.landedBy i = [] ∧
        (e.isConflict = false → RefusedAlone d₀ turns i c editor e) ∧
        (e.isConflict = true → Overtaken d₀ turns i c editor))) ∧
    ∀ i iam, jobs i = .seed iam → d.Sown i iam := by
  intro log₀ d₀ d
  have n : log₀.Numbered := (EventLog.numbered_of_events_eq_nil rfl).tried attempts
  have hschemas : log₀.schemas = some contexts := EventLog.schemas_tried _ attempts
  have hsound : d₀.Sound log₀ := sound_start n hschemas
  refine ⟨(hsound.run turns).serial, fun i c editor hjob => ?_, fun i iam hjob => ?_⟩
  · have hcaller : d₀.callers i = .asking c editor := congrArg (Caller.start now) hjob
    have htale : Tale d₀ turns i c editor := tale_run hsound hcaller rfl turns
    exact ⟨fun l hl => htale.answered_of_mem hl, fun r hr => htale.landedBy_of_ok hr,
      fun e he => htale.refused_of_error he⟩
  · have hstart : d₀.Sown i iam :=
      ⟨now, .start, congrArg (Caller.start now) hjob, nofun, fun n hn => Option.some.inj hn⟩
    exact hstart.run turns

end Desk
end Chronicle
