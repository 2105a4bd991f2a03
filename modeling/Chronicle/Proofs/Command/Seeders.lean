import Mathlib.Algebra.BigOperators.Fin
import Chronicle.Proofs.Command.Default
import Chronicle.Proofs.Command.Serial
/-!
# Seeders side by side

Any number of seeders of one instance take turns, and nobody else writes to the stream of the
instance. Whoever comes too late for a default finds it in effect when it reads again: what has come
in between can only have been this default, since no seeder turns to the second default before the
first is in effect. So no seeder ever needs its third try.

* `EventLog.missing`: the defaults that are not in effect;
* `Seeder.Stands`: where a seeder can stand on a log, and `Seeder.rank`, its turns to come;
* `Seeder.Stands.read`, `Seeder.Stands.refused`, `Seeder.Stands.landed`: its own turns;
* `Seeder.Stands.record`: the turn of another seeder;
* `Desk.Seeded`, **`Desk.Seeded.run`**: the invariant of a desk;
* **`Desk.seeded_together`**.
-/

namespace Chronicle

/-- The stream that a job is about. -/
def Job.stream : Job → Stream
  | command c _ => c.stream
  | seed iam => Seeder.stream iam

/-- The defaults that are not in effect, in the order in which they are seeded. -/
def EventLog.missing (log : EventLog) (iam : String) : List DefaultPolicy :=
  [.lockout, .orgIam].filter (log.lacks iam)

/-- It is the turn of a default: the one before it is in effect. -/
def EventLog.Reaches (log : EventLog) (iam : String) (p : DefaultPolicy) : Prop :=
  p = .orgIam → log.lacks iam .lockout = false

namespace Seeder

/-- Where a seeder can stand on a log. It tries a second time only what is in effect, and what it is
about to append is missing exactly as long as the stream has not moved on. -/
def Stands (iam : String) (asked : Instant) (log : EventLog) : Seeder → Prop
  | reading p attempt _ =>
    log.Reaches iam p ∧ (attempt = 1 ∨ attempt = 2 ∧ log.lacks iam p = false)
  | appending p attempt _ a =>
    log.Reaches iam p ∧ attempt = 1 ∧ ∃ n ≤ log.top iam, a = p.attempt iam asked n ∧
      (log.lacks iam p = true ↔ log.top iam = n)
  | finished _ => ∀ p, log.lacks iam p = false
  | failed _ => False

/-- The greatest number of turns to come. -/
def rank : Seeder → Nat
  | reading .lockout attempt _ => if attempt = 1 then 6 else 4
  | appending .lockout _ _ _ => 5
  | reading .orgIam attempt _ => if attempt = 1 then 3 else 1
  | appending .orgIam _ _ _ => 2
  | finished _ => 0
  | failed _ => 0

end Seeder

namespace EventLog

variable {log : EventLog} {iam : String} {p q : DefaultPolicy} {now : Instant}

/-- Only one missing default has its turn. -/
theorem Reaches.eq (hp : log.Reaches iam p) (hq : log.Reaches iam q)
    (hlp : log.lacks iam p = true) (hlq : log.lacks iam q = true) : p = q := by
  cases p with
  | lockout =>
    cases q with
    | lockout => rfl
    | orgIam => cases (hq rfl).symm.trans hlp
  | orgIam =>
    cases q with
    | lockout => cases (hp rfl).symm.trans hlq
    | orgIam => rfl

/-- Adding the default that has its turn takes it from those that are missing. -/
theorem Ready.missing_record (h : log.Ready iam) (hp : log.Reaches iam p)
    (hl : log.lacks iam p = true) (now : Instant) :
    log.missing iam = p :: (log.record (p.deed iam) seedingEditor now).missing iam := by
  unfold missing
  cases p with
  | lockout =>
    cases ho : log.lacks iam .orgIam <;> simp [h.lacks_record, hl, ho]
  | orgIam =>
    have hlockout := hp rfl
    simp [h.lacks_record, hl, hlockout]

end EventLog

namespace Seeder

variable {log log' : EventLog} {iam : String} {asked now : Instant} {s : Seeder}
  {p : DefaultPolicy}

theorem Stands.congr (h : s.Stands iam asked log) (hl : ∀ p, log'.lacks iam p = log.lacks iam p)
    (ht : log'.top iam = log.top iam) : s.Stands iam asked log' := by
  cases s <;> simp only [Stands, EventLog.Reaches, hl, ht] at h ⊢ <;> exact h

/-- **Other seeders.** Another seeder adds the default that has its turn. -/
theorem Stands.record (h : s.Stands iam asked log) (ready : log.Ready iam)
    (hp : log.Reaches iam p) (hl : log.lacks iam p = true) :
    s.Stands iam asked (log.record (p.deed iam) seedingEditor now) := by
  have hgone {q : DefaultPolicy} (hq : log.lacks iam q = false) :
      (log.record (p.deed iam) seedingEditor now).lacks iam q = false := by
    rw [ready.lacks_record, hq]
    rfl
  cases s with
  | reading q attempt added =>
    obtain ⟨hreach, hattempt⟩ := h
    exact ⟨fun hq => hgone (hreach hq), hattempt.imp id fun ha => ⟨ha.1, hgone ha.2⟩⟩
  | appending q attempt added a =>
    obtain ⟨hreach, hattempt, n, hn, ha, hiff⟩ := h
    refine ⟨fun hq => hgone (hreach hq), hattempt, n, ?_, ha, ?_⟩
    · rw [ready.top_record]
      omega
    · rw [ready.top_record]
      -- if its own default is still missing, then this is the one that was added
      constructor
      · intro hq
        rw [ready.lacks_record, Bool.and_eq_true, decide_eq_true_eq] at hq
        exact absurd (hreach.eq hp hq.1 hl) hq.2
      · omega
  | finished added => exact fun q => hgone (h q)
  | failed e => exact h

/-- A seeder goes on behind a default that is in effect. -/
theorem stands_next (hp : log.Reaches iam p) (hl : log.lacks iam p = false) (added : Nat) :
    (next p added).1.Stands iam asked log := by
  cases p with
  | lockout => exact ⟨fun _ => hl, .inl rfl⟩
  | orgIam =>
    intro q
    cases q with
    | lockout => exact hp rfl
    | orgIam => exact hl

/-- **Reading.** A seeder that reads the stream goes on, or is about to append. -/
theorem Stands.read (h : s.Stands iam asked log) (ready : log.Ready iam) (now : Instant)
    (idle : ∀ p n m a, s ≠ .appending p n m a) :
    let s' := (s.read iam now (.ok (log.history (stream iam).kind (stream iam).id))).1
    s'.Stands iam now log ∧ s'.rank ≤ s.rank - 1 ∧ s'.added? = s.added? := by
  intro s'
  cases s with
  | reading p attempt added =>
    obtain ⟨hreach, hattempt⟩ := h
    have hprepare := DefaultPolicy.prepare_of_load ready p now
    have hs' : s' = if log.lacks iam p then .appending p attempt added
        (p.attempt iam now (log.top iam)) else (next p added).1 := by
      change (Seeder.read iam now _ _).1 = _
      unfold Seeder.read
      dsimp only
      rw [hprepare]
      cases log.lacks iam p <;> rfl
    rw [hs']
    cases hl : log.lacks iam p with
    | false =>
      refine ⟨stands_next hreach hl added, ?_, ?_⟩
      · cases p <;> rcases hattempt with rfl | ⟨rfl, -⟩ <;> simp [next, rank]
      · cases p <;> rfl
    | true =>
      obtain rfl : attempt = 1 := hattempt.resolve_right fun ha => by
        rw [hl] at ha
        cases ha.2
      refine ⟨⟨hreach, rfl, _, Int.le_refl _, rfl, by simp [hl]⟩, ?_, rfl⟩
      cases p <;> exact Nat.le_refl _
  | appending p n m a => exact absurd rfl (idle p n m a)
  | finished added => exact ⟨h, Nat.zero_le _, rfl⟩
  | failed e => exact absurd h id

/-- **Coming too late.** If the append of a seeder is refused, its default is in effect. -/
theorem Stands.refused {p : DefaultPolicy} {n m : Nat} {a : Attempt} {e : Error}
    (h : (appending p n m a).Stands iam asked log) (ready : log.Ready iam)
    (hid : Text.allBlank iam = false) (ha : a.append log = .error e) :
    let s' := ((appending p n m a).append (.error e)).1
    s'.Stands iam asked log ∧ s'.rank ≤ (appending p n m a).rank - 1 ∧ s'.added? = some m := by
  obtain ⟨hreach, rfl, k, -, rfl, hiff⟩ := h
  rw [DefaultPolicy.append_attempt ready hid] at ha
  by_cases htop : log.top iam = k
  · rw [if_pos htop] at ha
    cases ha
  · rw [if_neg htop] at ha
    cases ha
    have hl : log.lacks iam p = false := by
      rw [Bool.eq_false_iff]
      exact fun hl => htop (hiff.1 hl)
    refine ⟨⟨hreach, .inr ⟨rfl, hl⟩⟩, ?_, rfl⟩
    cases p <;> exact Nat.le_refl _

/-- **Landing.** If the append of a seeder lands, its default was missing and is in effect. -/
theorem Stands.landed {p : DefaultPolicy} {n m : Nat} {a : Attempt} {events : List Event}
    (h : (appending p n m a).Stands iam asked log) (ready : log.Ready iam)
    (hid : Text.allBlank iam = false) (ha : a.append log = .ok (events, log')) :
    log' = log.record (p.deed iam) seedingEditor asked ∧ log.Reaches iam p ∧
      log.lacks iam p = true ∧ (next p (m + 1)).1.Stands iam asked log' ∧
      (next p (m + 1)).1.rank ≤ (appending p n m a).rank - 1 ∧
      (next p (m + 1)).1.added? = some (m + 1) := by
  obtain ⟨hreach, rfl, k, -, rfl, hiff⟩ := h
  rw [DefaultPolicy.append_attempt ready hid] at ha
  by_cases htop : log.top iam = k
  · rw [if_pos htop] at ha
    cases ha
    have hl : log.lacks iam p = true := hiff.2 htop
    refine ⟨rfl, hreach, hl, stands_next ?_ ?_ (m + 1), ?_, ?_⟩
    · intro hp
      rw [ready.lacks_record, hreach hp]
      rfl
    · rw [ready.lacks_record, decide_eq_false (not_not_intro rfl), Bool.and_false]
    · cases p <;> simp [next, rank]
    · cases p <;> rfl
  · rw [if_neg htop] at ha
    cases ha

end Seeder

/-! ## The other callers -/

namespace Caller

/-- The stream that a caller is at work on. -/
def home? : Caller → Option Stream
  | asking c _ => some c.stream
  | decided x _ => some x.command.stream
  | answered _ => none
  | seeding iam _ _ => some (Seeder.stream iam)

/-- The number of defaults that a seeder has added. -/
def added : Caller → Nat
  | seeding _ _ s => s.added?.getD 0
  | _ => 0

variable {c : Caller} {now : Instant} {log : EventLog} {x : Errand} {a : Attempt} {s : Stream}

theorem home?_look (h : c.home? ≠ some s) : (c.look now log).home? ≠ some s := by
  cases c with
  | asking c editor =>
    unfold look
    dsimp only
    cases c.prepare editor now (log.history c.stream.kind c.stream.id) with
    | error e => nofun
    | ok a => exact h
  | _ => exact h

theorem home?_told {r : Except Error Applied} (h : c.home? ≠ some s) :
    (c.told r).home? ≠ some s := by
  cases c with
  | decided x a => nofun
  | _ => exact h

theorem home?_of_wants? (h : c.wants? = some (x, a)) : c.home? = some x.command.stream := by
  cases c with
  | decided x' a' =>
    cases h
    rfl
  | seeding iam asked s =>
    cases s with
    | appending p n m a' =>
      cases h
      cases p <;> rfl
    | _ => cases h
  | _ => cases h

end Caller

/-! ## The invariant -/

/-- The event adds a default. -/
def Event.Adds (e : Event) (iam : String) (p : DefaultPolicy) : Prop :=
  ∃ now position sequence, e = (p.deed iam).event seedingEditor now position sequence

namespace Desk

variable {ι κ : Type} [Fintype ι] [DecidableEq ι] [DecidableEq κ] {iam : String} {log₀ : EventLog}
  {d : Desk (ι ⊕ κ)} {turned : ι → Nat}

/-- The number of defaults that the seeders have added. -/
def sown (d : Desk (ι ⊕ κ)) : Nat := ∑ i, (d.callers (.inl i)).added

omit [DecidableEq ι] [DecidableEq κ] in
/-- What holds of seeders at work, `turned` of whose turns have been taken, and of others who stay
away from their stream. What is added are defaults that were missing, in their order. -/
structure Seeded (iam : String) (log₀ : EventLog) (d : Desk (ι ⊕ κ)) (turned : ι → Nat) : Prop where
  ready : d.log.Ready iam
  away : ∀ k, (d.callers (.inr k)).home? ≠ some (Seeder.stream iam)
  aimed : ∀ k x a, (d.callers (.inr k)).wants? = some (x, a) → a.stream = x.command.stream
  stands : ∀ i, ∃ asked s, d.callers (.inl i) = .seeding iam asked s ∧
    s.Stands iam asked d.log ∧ s.rank ≤ 6 - turned i
  grown : ∃ new added, d.log.ofStream (Seeder.stream iam).kind (Seeder.stream iam).id
      = log₀.ofStream (Seeder.stream iam).kind (Seeder.stream iam).id ++ new ∧
    List.Forall₂ (fun e p => e.Adds iam p) new added ∧
    added ++ d.log.missing iam = log₀.missing iam ∧ d.sown = added.length

omit [DecidableEq ι] [DecidableEq κ] in
theorem sown_congr {d' : Desk (ι ⊕ κ)} (h : ∀ i, d'.callers (.inl i) = d.callers (.inl i)) :
    d'.sown = d.sown :=
  Finset.sum_congr rfl fun i _ => congrArg Caller.added (h i)

/-- The count of the seeder that moves changes, and no other. -/
theorem sown_update (d d' : Desk (ι ⊕ κ)) {i : ι} {c : Caller}
    (h : d'.callers = Function.update d.callers (.inl i) c) :
    d'.sown + (d.callers (.inl i)).added = d.sown + c.added := by
  unfold sown
  rw [← Finset.add_sum_erase _ (fun j => (d'.callers (.inl j)).added) (Finset.mem_univ i),
    ← Finset.add_sum_erase _ (fun j => (d.callers (.inl j)).added) (Finset.mem_univ i)]
  have hrest : ∑ j ∈ Finset.univ.erase i, (d'.callers (.inl j)).added
      = ∑ j ∈ Finset.univ.erase i, (d.callers (.inl j)).added := by
    refine Finset.sum_congr rfl fun j hj => ?_
    have hne : (Sum.inl j : ι ⊕ κ) ≠ .inl i := fun hji => Finset.ne_of_mem_erase hj (Sum.inl.inj hji)
    rw [h, Function.update_of_ne hne]
  rw [hrest, h, Function.update_self]
  omega

omit [DecidableEq ι] [DecidableEq κ] in
/-- What happens away from the stream of the instance changes nothing for its seeders. -/
theorem Seeded.elsewhere (h : d.Seeded iam log₀ turned) {d' : Desk (ι ⊕ κ)}
    (same : ∀ i, d'.callers (.inl i) = d.callers (.inl i))
    (away : ∀ k, (d'.callers (.inr k)).home? ≠ some (Seeder.stream iam))
    (aimed : ∀ k x a, (d'.callers (.inr k)).wants? = some (x, a) → a.stream = x.command.stream)
    (n : d'.log.Numbered) (schemas : d'.log.schemas = d.log.schemas)
    (stream : d'.log.ofStream (Seeder.stream iam).kind (Seeder.stream iam).id
      = d.log.ofStream (Seeder.stream iam).kind (Seeder.stream iam).id) :
    d'.Seeded iam log₀ turned := by
  obtain ⟨ready, hlacks, htop⟩ := h.ready.congr n schemas stream
  have hmissing : d'.log.missing iam = d.log.missing iam :=
    List.filter_congr fun p _ => hlacks p
  refine ⟨ready, away, aimed, fun i => ?_, ?_⟩
  · obtain ⟨asked, s, hs, hstands, hrank⟩ := h.stands i
    exact ⟨asked, s, (same i).trans hs, hstands.congr hlacks htop, hrank⟩
  · rw [stream, hmissing, sown_congr same]
    exact h.grown

theorem Seeded.move_other (h : d.Seeded iam log₀ turned) {k : κ} {c : Caller}
    (home : c.home? ≠ some (Seeder.stream iam))
    (aimed : ∀ x a, c.wants? = some (x, a) → a.stream = x.command.stream) :
    (d.move (.inr k) c).Seeded iam log₀ turned := by
  have hcallers (k' : κ) (P : Caller → Prop) (hk : P c) (hk' : P (d.callers (.inr k'))) :
      P ((d.move (.inr k) c).callers (.inr k')) := by
    by_cases hkk : k' = k
    · subst hkk
      rwa [callers_move_self]
    · rwa [callers_move_of_ne _ fun heq => hkk (Sum.inr.inj heq)]
  refine h.elsewhere (fun i => callers_move_of_ne _ Sum.inl_ne_inr c) ?_ ?_ h.ready.numbered rfl rfl
  · exact fun k' => hcallers k' (fun c => c.home? ≠ _) home (h.away k')
  · exact fun k' => hcallers k'
      (fun c => ∀ x a, c.wants? = some (x, a) → a.stream = x.command.stream) aimed (h.aimed k')

/-- **Other callers** do not touch the stream of the instance. -/
theorem Seeded.other (h : d.Seeded iam log₀ turned) (k : κ) (now : Instant) :
    (d.step (.inr k) now).Seeded iam log₀ turned := by
  have hhome := h.away k
  rcases d.step_cases (.inr k) now with ⟨idle, hs⟩ | ⟨x, a, e, wants, -, hs⟩ |
    ⟨x, a, events, log, wants, ha, hs⟩
  · rw [hs]
    refine h.move_other (Caller.home?_look hhome) fun x a hw => ?_
    have hprepare := Caller.prepare_of_wants?_look idle hw
    obtain ⟨-, hstream, -⟩ := Command.prepare_cases h.ready.numbered hprepare
    exact hstream
  · rw [hs]
    refine h.move_other (Caller.home?_told hhome) fun y b hw => ?_
    rw [Caller.wants?_told wants] at hw
    cases hw
  · have hne : a.stream ≠ Seeder.stream iam := by
      rw [h.aimed k x a wants]
      intro heq
      exact hhome ((Caller.home?_of_wants? wants).trans (congrArg some heq))
    have hmoved := h.move_other (k := k) (Caller.home?_told (r := .ok (a.applied events)) hhome)
      fun y b hw => by
        rw [Caller.wants?_told wants] at hw
        cases hw
    obtain ⟨-, hevents, hlog, -⟩ := EventLog.append_cases ha
    rw [hs]
    refine hmoved.elsewhere (fun _ => rfl) hmoved.away hmoved.aimed (h.ready.numbered.append ha) ?_ ?_
    · change log.schemas = d.log.schemas
      rw [hlog]
    · have hapart : ¬(a.stream.kind = (Seeder.stream iam).kind
          ∧ a.stream.id = (Seeder.stream iam).id) := by
        rw [h.aimed k x a wants] at hne ⊢
        rintro ⟨hkind, hid⟩
        have hseed : x.command.subject.stream = (Subject.members iam).stream :=
          Subject.stream_eq hkind hid
        exact hne hseed
      change log.events.filter _ = d.log.events.filter _
      rw [hlog, List.filter_append, hevents, EventLog.filter_place_of_ne hapart, List.append_nil]

/-- A seeder moves, and nothing is appended. -/
theorem Seeded.move_own (h : d.Seeded iam log₀ turned) {i : ι} {asked asked' : Instant}
    {s s' : Seeder} (hs : d.callers (.inl i) = .seeding iam asked s)
    (hstands : s'.Stands iam asked' d.log) (hrank : s'.rank ≤ s.rank - 1)
    (hadded : s'.added? = s.added?) :
    (d.move (.inl i) (.seeding iam asked' s')).Seeded iam log₀
      (Function.update turned i (turned i + 1)) := by
  refine ⟨h.ready, fun k => ?_, fun k => ?_, fun j => ?_, ?_⟩
  · rw [callers_move_of_ne _ Sum.inr_ne_inl]
    exact h.away k
  · rw [callers_move_of_ne _ Sum.inr_ne_inl]
    exact h.aimed k
  · by_cases hj : j = i
    · subst hj
      rw [callers_move_self, Function.update_self]
      obtain ⟨_, _, hs₀, -, hr⟩ := h.stands j
      cases hs.symm.trans hs₀
      exact ⟨asked', s', rfl, hstands, by omega⟩
    · rw [callers_move_of_ne _ fun heq => hj (Sum.inl.inj heq), Function.update_of_ne hj]
      exact h.stands j
  · have hsown := sown_update d (d.move (.inl i) (.seeding iam asked' s')) rfl
    have hsame : (Caller.seeding iam asked' s').added = (d.callers (.inl i)).added := by
      rw [hs]
      exact congrArg (Option.getD · 0) hadded
    obtain ⟨new, added, hstream, hnew, hmissing, hcount⟩ := h.grown
    exact ⟨new, added, hstream, hnew, hmissing, by omega⟩

/-- A seeder moves, and its default is added. -/
theorem Seeded.land_own (h : d.Seeded iam log₀ turned) {i : ι} {asked : Instant} {p : DefaultPolicy}
    {n m : Nat} {a : Attempt} (hs : d.callers (.inl i) = .seeding iam asked (.appending p n m a))
    {x : Errand} {events : List Event} {log : EventLog} (hid : Text.allBlank iam = false)
    (ha : a.append d.log = .ok (events, log)) :
    (d.land (.inl i) x (a.applied events) log).Seeded iam log₀
      (Function.update turned i (turned i + 1)) := by
  obtain ⟨_, _, hs₀, hstands, hrank⟩ := h.stands i
  cases hs.symm.trans hs₀
  obtain ⟨rfl, hreach, hl, hstands', hrank', hadded⟩ := hstands.landed h.ready hid ha
  have hcaller : (d.land (.inl i) x (a.applied events) (d.log.record (p.deed iam) seedingEditor
      asked)).callers (.inl i) = .seeding iam asked (Seeder.next p (m + 1)).1 := by
    rw [callers_land_self, hs]
    rfl
  refine ⟨h.ready.record p asked, fun k => ?_, fun k => ?_, fun j => ?_, ?_⟩
  · rw [callers_land_of_ne _ Sum.inr_ne_inl]
    exact h.away k
  · rw [callers_land_of_ne _ Sum.inr_ne_inl]
    exact h.aimed k
  · by_cases hj : j = i
    · subst hj
      rw [hcaller, Function.update_self]
      exact ⟨asked, _, rfl, hstands', by omega⟩
    · rw [callers_land_of_ne _ fun heq => hj (Sum.inl.inj heq), Function.update_of_ne hj]
      obtain ⟨asked', s', hs', hstands'', hrank''⟩ := h.stands j
      exact ⟨asked', s', hs', hstands''.record h.ready hreach hl, hrank''⟩
  · obtain ⟨new, added, hstream, hnew, hmissing, hcount⟩ := h.grown
    refine ⟨new ++ [(p.deed iam).event seedingEditor asked (d.log.events.length + 1)
      (d.log.top iam + 1)], added ++ [p], ?_, ?_, ?_, ?_⟩
    · change (d.log.record _ _ _).ofStream _ _ = _
      rw [EventLog.Ready.ofStream_record, hstream, List.append_assoc]
    · exact List.rel_append hnew (.cons ⟨asked, _, _, rfl⟩ .nil)
    · rw [← hmissing, h.ready.missing_record hreach hl asked, List.append_assoc]
      rfl
    · have hsown := sown_update d (d.land (.inl i) x (a.applied events) (d.log.record
        (p.deed iam) seedingEditor asked)) rfl
      rw [← callers_land_self d _ x _ (d.log.record (p.deed iam) seedingEditor asked)] at hsown
      rw [hcaller, hs] at hsown
      have hafter : (Caller.seeding iam asked (Seeder.next p (m + 1)).1).added = m + 1 :=
        congrArg (Option.getD · 0) hadded
      have hbefore : (Caller.seeding iam asked (.appending p n m a)).added = m := rfl
      rw [List.length_append, List.length_singleton]
      omega

/-- **Seeders.** The turn of a seeder. -/
theorem Seeded.own (h : d.Seeded iam log₀ turned) (hid : Text.allBlank iam = false) (i : ι)
    (now : Instant) :
    (d.step (.inl i) now).Seeded iam log₀ (Function.update turned i (turned i + 1)) := by
  obtain ⟨asked, s, hs, hstands, -⟩ := h.stands i
  rcases d.step_cases (.inl i) now with ⟨idle, hstep⟩ | ⟨x, a, e, wants, ha, hstep⟩ |
    ⟨x, a, events, log, wants, ha, hstep⟩
  · have hidle : ∀ p n m a, s ≠ .appending p n m a := by
      intro p n m a hsa
      rw [hs, hsa] at idle
      cases idle
    have hread := hstands.read h.ready now hidle
    rw [hstep, hs]
    exact h.move_own hs hread.1 hread.2.1 hread.2.2
  · rw [hs] at wants
    cases s with
    | appending p n m a' =>
      cases wants
      have hrefused := hstands.refused h.ready hid ha
      rw [hstep, hs]
      exact h.move_own hs hrefused.1 hrefused.2.1 hrefused.2.2
    | _ => cases wants
  · rw [hs] at wants
    cases s with
    | appending p n m a' =>
      cases wants
      rw [hstep]
      exact h.land_own hs hid ha
    | _ => cases wants

/-- The turns of a list that a seeder has taken. -/
def turnsOf (turns : List ((ι ⊕ κ) × Instant)) (i : ι) : Nat :=
  turns.countP fun t => t.1 = .inl i

/-- **Turns**, however they come, keep the invariant. -/
theorem Seeded.run (h : d.Seeded iam log₀ fun _ => 0) (hid : Text.allBlank iam = false)
    (turns : List ((ι ⊕ κ) × Instant)) : (d.run turns).Seeded iam log₀ (turnsOf turns) := by
  induction turns using List.reverseRecOn with
  | nil => exact h
  | append_singleton turns t ih =>
    obtain ⟨j, now⟩ := t
    rw [run_concat]
    cases j with
    | inr k =>
      have hcount : turnsOf (turns ++ [(Sum.inr k, now)]) = turnsOf turns := by
        funext i
        simp [turnsOf]
      rw [hcount]
      exact ih.other k now
    | inl j =>
      have hcount : turnsOf (turns ++ [(Sum.inl j, now)])
          = Function.update (turnsOf turns) j (turnsOf turns j + 1) := by
        funext i
        by_cases hi : i = j
        · subst hi
          simp [turnsOf]
        · have hne : ¬j = i := Ne.symm hi
          simp [turnsOf, hi, hne]
      rw [hcount]
      exact ih.own hid j now

omit [DecidableEq ι] [DecidableEq κ] in
/-- Seeders that have just come to a log that commands led to. -/
theorem seeded_start {schemas : SchemaSet} (reads : schemas.ReadsPolicies) (errands : List Errand)
    {others : κ → Job} (away : ∀ k, (others k).stream ≠ Seeder.stream iam) (now : Instant) :
    let log₀ := ({ schemas := some schemas } : EventLog).after errands
    (start now log₀ (Sum.elim (fun _ : ι => .seed iam) others)).Seeded iam log₀ fun _ => 0 := by
  intro log₀
  have hkept : log₀.Kept := EventLog.kept_after rfl errands
  have hschemas : log₀.schemas = some schemas := EventLog.schemas_after _ errands
  refine ⟨⟨hkept.numbered, fun p => ?_, schemas, hschemas, reads.check_payload⟩, fun k => ?_,
    fun k x a hw => ?_, fun i => ⟨now, .start, rfl, ⟨nofun, .inl rfl⟩, Nat.le_refl _⟩,
    [], [], (List.append_nil _).symm, .nil, rfl, ?_⟩
  · obtain ⟨a, ha, -⟩ := hkept.loads (p.slot iam).subject
    exact ⟨a, ha⟩
  · intro hhome
    refine away k ?_
    change (Caller.start now (others k)).home? = _ at hhome
    cases hj : others k <;> rw [hj] at hhome <;> exact Option.some.inj hhome
  · change (Caller.start now (others k)).wants? = _ at hw
    cases hj : others k <;> rw [hj] at hw <;> cases hw
  · exact Finset.sum_eq_zero fun i _ => rfl

/-- **Seeding together.** Any number of seeders of one instance come to a log that commands led to
and whose schemas read policies, and any others who have no business on the stream of the instance.
However their turns come, no seeder ever fails, and each has come to its end after six turns. Once
all have come to their end, the counts that they give back add up to the number of defaults that
were missing, their stream has grown by one event for each of these, and both defaults are in
effect. -/
theorem seeded_together {n : Nat} (hid : Text.allBlank iam = false) {schemas : SchemaSet}
    (reads : schemas.ReadsPolicies) (errands : List Errand) {others : κ → Job}
    (away : ∀ k, (others k).stream ≠ Seeder.stream iam) (now : Instant)
    (turns : List ((Fin (n + 1) ⊕ κ) × Instant)) :
    let log₀ := ({ schemas := some schemas } : EventLog).after errands
    let d := (start now log₀ (Sum.elim (fun _ => .seed iam) others)).run turns
    (∀ i, ∃ asked s, d.callers (.inl i) = .seeding iam asked s ∧ (∀ e, s ≠ .failed e) ∧
      (6 ≤ turnsOf turns i → ∃ m, s.result? = some (.ok m))) ∧
    ∀ added : Fin (n + 1) → Nat,
      (∀ i, ∃ asked, d.callers (.inl i) = .seeding iam asked (.finished (added i))) →
      ∑ i, added i = (log₀.missing iam).length ∧
      (∃ new, d.log.history (Seeder.stream iam).kind (Seeder.stream iam).id
          = log₀.history (Seeder.stream iam).kind (Seeder.stream iam).id ++ new ∧
        List.Forall₂ (fun e p => e.Adds iam p) new (log₀.missing iam)) ∧
      ∀ p : DefaultPolicy, d.log.ledger (p.slot iam) ≠ none := by
  intro log₀ d
  have hseeded : d.Seeded iam log₀ (turnsOf turns) :=
    (seeded_start reads errands away now).run hid turns
  refine ⟨fun i => ?_, fun added hadded => ?_⟩
  · obtain ⟨asked, s, hs, hstands, hrank⟩ := hseeded.stands i
    refine ⟨asked, s, hs, ?_, fun hturns => ?_⟩
    · rintro e rfl
      exact hstands
    · have hzero : s.rank = 0 := by omega
      cases s with
      | reading p attempt m => cases p <;> simp [Seeder.rank] at hzero <;> split at hzero <;> cases hzero
      | appending p attempt m a => cases p <;> cases hzero
      | finished m => exact ⟨m, rfl⟩
      | failed e => exact absurd hstands id
  · have hlacks : ∀ p, d.log.lacks iam p = false := by
      obtain ⟨asked, hs⟩ := hadded 0
      obtain ⟨_, _, hs', hstands, -⟩ := hseeded.stands 0
      cases hs.symm.trans hs'
      exact hstands
    have hmissing : d.log.missing iam = [] := by
      unfold EventLog.missing
      simp [hlacks]
    have hsown : d.sown = ∑ i, added i := by
      refine Finset.sum_congr rfl fun i _ => ?_
      obtain ⟨asked, hs⟩ := hadded i
      rw [hs]
      rfl
    obtain ⟨new, all, hstream, hnew, hall, hcount⟩ := hseeded.grown
    rw [hmissing, List.append_nil] at hall
    subst hall
    refine ⟨hsown.symm.trans hcount, ⟨new, ?_, hnew⟩, fun p hp => ?_⟩
    · have hkept : log₀.Kept := EventLog.kept_after rfl errands
      rw [hseeded.ready.numbered.history_eq, hkept.numbered.history_eq]
      exact hstream
    · have hpresent := hlacks p
      unfold EventLog.lacks at hpresent
      rw [hp] at hpresent
      cases hpresent

/-- Two seeders read before either has appended, so one comes too late. -/
theorem seeded_together_twice :
    let turns : List ((Fin 2 ⊕ Empty) × Instant) :=
      (List.replicate 6 [(.inl 0, ⟨0⟩), (.inl 1, ⟨0⟩)]).flatten
    let log₀ := ({ schemas := some contexts } : EventLog).after []
    let d := (start ⟨0⟩ log₀ (Sum.elim (fun _ => .seed "iam") Empty.elim)).run turns
    Text.allBlank "iam" = false ∧ contexts.ReadsPolicies ∧ (∀ i, 6 ≤ turnsOf turns i) ∧
      (log₀.missing "iam").length = 2 ∧ ∃ added : Fin 2 → Nat,
        (∀ i, ∃ asked, d.callers (.inl i) = .seeding "iam" asked (.finished (added i))) ∧
        ∑ i, added i = 2 := by
  intro turns log₀ d
  have hid : Text.allBlank "iam" = false := by decide
  have hturns : ∀ i, 6 ≤ turnsOf turns i := by decide
  have hmissing : (log₀.missing "iam").length = 2 := by
    have hempty : log₀.ledger = Ledger.empty := EventLog.ledger_of_events_eq_nil rfl
    unfold EventLog.missing EventLog.lacks
    rw [hempty]
    rfl
  obtain ⟨hend, hsum⟩ := seeded_together (n := 1) hid readsPolicies_contexts []
    (fun k : Empty => k.elim) ⟨0⟩ turns
  have hfinished : ∀ i, ∃ m asked, d.callers (.inl i) = .seeding "iam" asked (.finished m) := by
    intro i
    obtain ⟨asked, s, hs, -, hresult⟩ := hend i
    obtain ⟨m, hm⟩ := hresult (hturns i)
    refine ⟨m, asked, hs.trans ?_⟩
    cases s <;> cases hm
    rfl
  choose added hadded using hfinished
  exact ⟨hid, readsPolicies_contexts, hturns, hmissing, added, hadded,
    (hsum added hadded).1.trans hmissing⟩

end Desk
end Chronicle
