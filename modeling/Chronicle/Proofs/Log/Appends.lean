import Mathlib.Data.List.Basic
import Chronicle.Proofs.Command.Land
/-!
# Appends, one after the other

Anybody may try to append anything: to any stream, behind any sequence, any number of drafts. What
an attempt is answered depends on the schemas and on the length of its stream alone, and the log
that many attempts leave behind is numbered without gaps.

* `oneTo`: the numbers that a log of a given length has;
* `Attempt.stored`: the events that an accepted attempt becomes;
* `EventLog.Numbered.append_eq`: the answer to an attempt, as one equation;
* `EventLog.Honours`: how a log deals with an attempt;
* `EventLog.won`, `EventLog.Numbered.pairwise_won`: the attempts that were accepted, and the
  sequences they expected;
* **`EventLog.append_contract`**.
-/

namespace Chronicle

/-! ## Numbers without gaps -/

/-- The numbers from one to `n`. -/
def oneTo (n : Nat) : List Int :=
  (List.range n).map fun i : Nat => (i : Int) + 1

theorem CountsFrom.eq_map {n : Int} {xs : List Int} (h : CountsFrom n xs) :
    xs = (List.range xs.length).map fun i : Nat => n + (i : Int) + 1 := by
  induction xs generalizing n with
  | nil => rfl
  | cons x xs ih =>
    obtain ⟨rfl, h⟩ := h
    rw [List.length_cons, List.range_succ_eq_map, List.map_cons, List.map_map]
    refine congrArg₂ List.cons (by simp) ((ih h).trans ?_)
    refine List.map_congr_left fun i _ => ?_
    simp only [Function.comp_apply, Nat.succ_eq_add_one]
    omega

theorem CountsFrom.eq_oneTo {xs : List Int} (h : CountsFrom 0 xs) : xs = oneTo xs.length := by
  simpa [oneTo] using h.eq_map

/-! ## The answer to an attempt -/

/-- The events that an attempt becomes behind `n` events of the log: its drafts in their order, with
the next positions of the log and the next sequences of the stream. -/
def Attempt.stored (a : Attempt) (n : Nat) : List Event :=
  a.drafts.mapIdx fun i d =>
    { position := n + i + 1
      uuid := d.uuid
      stream := a.stream
      sequence := a.expected + i + 1
      tag := d.tag
      payload := d.payload
      editor := d.editor
      time := d.time }

theorem EventLog.place_eq_mapIdx (stream : Stream) (count sequence : Int) (drafts : List Draft) :
    EventLog.place stream count sequence drafts
      = drafts.mapIdx fun i d => d.place stream (count + i + 1) (sequence + i + 1) := by
  induction drafts generalizing count sequence with
  | nil => rfl
  | cons d rest ih =>
    rw [EventLog.place, ih, List.mapIdx_cons]
    refine congrArg₂ List.cons (by simp) ?_
    refine congrArg (List.mapIdx · rest) (funext₂ fun i d => ?_)
    rw [show count + 1 + (i : Int) + 1 = count + ((i + 1 : Nat) : Int) + 1 by omega,
      show sequence + 1 + (i : Int) + 1 = sequence + ((i + 1 : Nat) : Int) + 1 by omega]

namespace EventLog

/-- The number of events on the stream that an attempt is made to. -/
def reachedBy (log : EventLog) (a : Attempt) : Nat :=
  (log.ofStream a.stream.kind a.stream.id).length

variable {log log' : EventLog} {a b : Attempt}

/-- **Answers.** An attempt is refused if it is not valid, else accepted if it is empty or expects
the length of its stream, else refused because of that length. -/
theorem Numbered.append_eq (n : log.Numbered) (a : Attempt) :
    a.append log =
      match validate log.schemas a.stream a.drafts with
      | .error e => .error e
      | .ok () =>
        if a.drafts = [] ∨ a.expected = log.reachedBy a then
          .ok (a.stored log.events.length,
            { log with events := log.events ++ a.stored log.events.length })
        else .error (.conflict a.stream.id a.expected (log.reachedBy a)) := by
  have hhead : log.head a.stream.kind a.stream.id = (log.reachedBy a : Int) := n.head_eq ..
  unfold Attempt.append EventLog.append
  cases validate log.schemas a.stream a.drafts with
  | error e => rfl
  | ok u =>
    dsimp only
    rw [place_eq_mapIdx, hhead]
    cases hd : a.drafts with
    | nil => simp [Attempt.stored, hd]
    | cons d rest => simp [Attempt.stored, hd, Draft.place, eq_comm (a := a.expected)]

/-- How a log deals with an attempt. -/
structure Honours (log : EventLog) (a : Attempt) : Prop where
  /-- It is accepted exactly if it is valid, and is empty or expects the length of its stream. -/
  ok_iff : (∃ r, a.append log = .ok r) ↔
    validate log.schemas a.stream a.drafts = .ok () ∧
      (a.drafts = [] ∨ a.expected = log.reachedBy a)
  /-- An attempt that is not valid is refused for that, also if it comes too late. -/
  invalid : ∀ e, validate log.schemas a.stream a.drafts = .error e → a.append log = .error e
  /-- A valid attempt is refused only because its stream has another length. -/
  conflict : ∀ e, validate log.schemas a.stream a.drafts = .ok () → a.append log = .error e →
    e = .conflict a.stream.id a.expected (log.reachedBy a)
  /-- An accepted attempt puts the events that are given back behind the log. -/
  grows : ∀ events log', a.append log = .ok (events, log') →
    events = a.stored log.events.length ∧ log' = { log with events := log.events ++ events } ∧
      a.land log = log'
  /-- A refused attempt and an empty one leave the log as it is. -/
  keeps : (∃ e, a.append log = .error e) ∨ a.drafts = [] → a.land log = log

theorem Numbered.honours (n : log.Numbered) (a : Attempt) : log.Honours a := by
  have heq := n.append_eq a
  cases hv : validate log.schemas a.stream a.drafts with
  | error e =>
    rw [hv] at heq
    have hland : a.land log = log := Attempt.land_of_error heq
    constructor <;> simp [heq, hv, hland]
  | ok u =>
    rw [hv] at heq
    by_cases hm : a.drafts = [] ∨ a.expected = log.reachedBy a
    · simp only [hm, if_true] at heq
      have hland := Attempt.land_of_ok heq
      have hempty : a.drafts = [] → a.stored log.events.length = [] := fun h => by
        simp [Attempt.stored, h]
      refine ⟨by simp [heq, hv, hm], by simp [hv], by simp [heq], ?_, ?_⟩
      · rintro events log' h
        rw [heq] at h
        cases h
        exact ⟨rfl, rfl, hland⟩
      · rintro (⟨e, h⟩ | h)
        · exact Attempt.land_of_error h
        · rw [hland, hempty h, List.append_nil]
    · simp only [hm, if_false] at heq
      have hland : a.land log = log := Attempt.land_of_error heq
      constructor <;> simp [heq, hv, hm, hland, eq_comm]

/-! ## Accepted attempts -/

/-- The attempts that are accepted when they are made one after the other. -/
def won (log : EventLog) : List Attempt → List Attempt
  | [] => []
  | a :: rest =>
    match a.append log with
    | .error _ => won log rest
    | .ok (_, log) => a :: won log rest

theorem prefix_tried (log : EventLog) (attempts : List Attempt) :
    log.events <+: (log.tried attempts).events := by
  induction attempts generalizing log with
  | nil => exact List.prefix_rfl
  | cons a rest ih => exact Attempt.prefix_land.trans (ih (a.land log))

theorem length_ofStream_le (h : log.events <+: log'.events) (kind id : String) :
    (log.ofStream kind id).length ≤ (log'.ofStream kind id).length :=
  (h.filter _).length_le

/-- An accepted attempt that is not empty expected its stream to be as long as it was, and leaves
it longer. -/
theorem Numbered.lt_of_append {r : List Event × EventLog} (n : log.Numbered)
    (h : a.append log = .ok r) (hd : a.drafts ≠ []) :
    a.expected = log.reachedBy a ∧ a.expected < r.2.reachedBy a := by
  obtain ⟨hev, hlog, -⟩ := (n.honours a).grows r.1 r.2 h
  have hm : a.expected = log.reachedBy a := ((n.honours a).ok_iff.1 ⟨r, h⟩).2.resolve_left hd
  have hpos : 0 < a.drafts.length := List.length_pos_iff.2 hd
  have hlen : r.1.length = a.drafts.length := by simp [hev, Attempt.stored]
  have hown : r.1.filter (onStream a.stream.kind a.stream.id) = r.1 := by
    refine List.filter_eq_self.2 fun e he => ?_
    rw [hev, Attempt.stored, List.mem_mapIdx] at he
    obtain ⟨i, hi, rfl⟩ := he
    simp [onStream]
  have hlong : r.2.reachedBy a = log.reachedBy a + a.drafts.length := by
    rw [hlog, reachedBy, ofStream, List.filter_append, hown, List.length_append, hlen]
    rfl
  omega

theorem Numbered.reachedBy_le_of_mem_won {attempts : List Attempt} (n : log.Numbered)
    (h : a ∈ log.won attempts) (hd : a.drafts ≠ []) : (log.reachedBy a : Int) ≤ a.expected := by
  induction attempts generalizing log with
  | nil => cases h
  | cons b rest ih =>
    rw [won] at h
    cases hb : b.append log with
    | error e =>
      rw [hb] at h
      exact ih n h
    | ok r =>
      rw [hb] at h
      rcases List.mem_cons.1 h with rfl | h
      · exact Int.le_of_eq (n.lt_of_append hb hd).1.symm
      · have hlog := (n.honours b).grows r.1 r.2 hb
        have hgrown : log.events <+: r.2.events := by
          rw [hlog.2.1]
          exact List.prefix_append ..
        have hle := length_ofStream_le hgrown a.stream.kind a.stream.id
        have := ih (n.append hb) h
        simp only [reachedBy] at this ⊢
        omega

/-- **Accepted attempts** to one stream that are not empty expected ever greater sequences. -/
theorem Numbered.pairwise_won (n : log.Numbered) (attempts : List Attempt) :
    (log.won attempts).Pairwise fun a b =>
      a.drafts ≠ [] → b.drafts ≠ [] → a.stream.kind = b.stream.kind → a.stream.id = b.stream.id →
        a.expected < b.expected := by
  induction attempts generalizing log with
  | nil => exact .nil
  | cons a rest ih =>
    rw [won]
    cases ha : a.append log with
    | error e => exact ih n
    | ok r =>
      refine List.pairwise_cons.2 ⟨fun b hb hda hdb hkind hid => ?_, ih (n.append ha)⟩
      have hlt := (n.lt_of_append ha hda).2
      have hle := Numbered.reachedBy_le_of_mem_won (n.append ha) hb hdb
      simp only [reachedBy, hkind, hid] at hlt hle
      omega

end EventLog

/-- Whether an attempt is to append something behind the sequence `n` of a stream. -/
def Attempt.seeks (kind id : String) (n : Int) (a : Attempt) : Bool :=
  a.stream.kind == kind && a.stream.id == id && a.expected == n && !a.drafts.isEmpty

/-- **The contract of the log.** Whatever is tried on a log without events, with any schemas or none:
it numbers its events from one on, and so it does within each stream; what is in it stays as it is;
it deals with every further attempt as it should; and of all attempts to append something behind the
same sequence of a stream one is accepted at most. -/
theorem EventLog.append_contract (schemas : Option SchemaSet) (attempts : List Attempt) :
    let empty : EventLog := { schemas := schemas }
    let log := empty.tried attempts
    log.schemas = schemas ∧
    log.events.map (·.position) = oneTo log.events.length ∧
    (∀ kind id, (log.ofStream kind id).map (·.sequence) = oneTo (log.ofStream kind id).length) ∧
    (∀ more, log.events <+: (empty.tried (attempts ++ more)).events) ∧
    (∀ a, log.Honours a) ∧
    ∀ kind id n, ((empty.won attempts).filter (Attempt.seeks kind id n)).length ≤ 1 := by
  intro empty log
  have n₀ : empty.Numbered := numbered_of_events_eq_nil rfl
  have n : log.Numbered := n₀.tried attempts
  refine ⟨schemas_tried empty attempts, ?_, ?_, ?_, n.honours, ?_⟩
  · simpa using n.position.eq_oneTo
  · intro kind id
    simpa using (n.sequence kind id).eq_oneTo
  · intro more
    have happend : empty.tried (attempts ++ more) = log.tried more := List.foldl_append ..
    rw [happend]
    exact log.prefix_tried more
  · intro kind id m
    have hwon := (n₀.pairwise_won attempts).filter (Attempt.seeks kind id m)
    have hseeks := fun a (ha : a ∈ (empty.won attempts).filter (Attempt.seeks kind id m)) =>
      (List.mem_filter.1 ha).2
    -- two of them would expect the same sequence, and yet the first a smaller one
    match hl : (empty.won attempts).filter (Attempt.seeks kind id m) with
    | [] => simp
    | [a] => simp
    | a :: b :: rest =>
      rw [hl] at hwon hseeks
      have hab := (List.pairwise_cons.1 hwon).1 b List.mem_cons_self
      have ha := hseeks a List.mem_cons_self
      have hb := hseeks b (List.mem_cons_of_mem _ List.mem_cons_self)
      simp only [Attempt.seeks, Bool.and_eq_true, beq_iff_eq, Bool.not_eq_true',
        List.isEmpty_eq_false_iff] at ha hb
      obtain ⟨⟨⟨hka, hia⟩, hna⟩, hda⟩ := ha
      obtain ⟨⟨⟨hkb, hib⟩, hnb⟩, hdb⟩ := hb
      have := hab hda hdb (hka.trans hkb.symm) (hia.trans hib.symm)
      omega

end Chronicle
