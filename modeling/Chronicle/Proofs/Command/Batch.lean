import Chronicle.Proofs.Command.Pending
import Chronicle.Proofs.Command.Timely
/-!
# Batches of calls

Calls on an aggregate in hand are decided on the state that was loaded, whatever is pending. So a
batch of calls with one commit behind it need not do what the same calls do one by one, each on an
aggregate of its own. It does so exactly as long as every call comes in time: what is pending before
it changes neither its answer nor what this answer leads to.

* `Subject.batch`, `Subject.answers`: calls with one commit behind them, and their answers;
* `Subject.oneByOne`, `Subject.answersOneByOne`: the same, each with a commit of its own;
* `Subject.Alike`: the two come to the same;
* **`Subject.batch_of_load`**: what a batch leaves is what it has pending, taken in;
* **`Subject.alike_concat_iff`**: one more call;
* **`Subject.batched_after`**: when a batch comes to what its calls come to one by one.
-/

namespace Chronicle

namespace Subject

/-! ## Batches -/

/-- How calls on an aggregate in hand are answered. -/
def answersOn (s : Subject) : Aggregate s.State s.Fact → List (Demand s) → List (Option ErrorKind)
  | _, [] => []
  | a, x :: xs =>
    refusal? (s.decider.perform a x.request x.editor x.time) :: s.answersOn (s.heed a x) xs

/-- How the calls of a batch are answered: all on one aggregate that is loaded first. -/
def answers (s : Subject) (log : EventLog) (xs : List (Demand s)) : List (Option ErrorKind) :=
  match s.decider.load log with
  | .error _ => []
  | .ok a => s.answersOn a xs

/-- The log after a batch: an aggregate is loaded, takes the calls and is committed. A commit that
fails leaves the log as it is. -/
def batch (s : Subject) (log : EventLog) (xs : List (Demand s)) : EventLog :=
  match s.decider.load log with
  | .error _ => log
  | .ok a =>
    match s.decider.commit log (s.heedAll a xs) with
    | .error _ => log
    | .ok (_, log, _) => log

/-- How calls are answered one by one: each is a batch of its own. -/
def answersOneByOne (s : Subject) : EventLog → List (Demand s) → List (Option ErrorKind)
  | _, [] => []
  | log, x :: xs => s.answers log [x] ++ s.answersOneByOne (s.batch log [x]) xs

/-- The log after calls that were made one by one. -/
def oneByOne (s : Subject) (log : EventLog) (xs : List (Demand s)) : EventLog :=
  xs.foldl (fun log x => s.batch log [x]) log

/-- A batch is answered as its calls are one by one, and leaves the subject in the same state. -/
structure Alike (s : Subject) (log : EventLog) (xs : List (Demand s)) : Prop where
  answers : s.answers log xs = s.answersOneByOne log xs
  state : (s.decider.load (s.batch log xs)).map (·.state)
    = (s.decider.load (s.oneByOne log xs)).map (·.state)

/-! ## What a batch comes to -/

variable {s : Subject} {a : Aggregate s.State s.Fact} {log : EventLog}

theorem refusal?_perform (s : Subject) (a : Aggregate s.State s.Fact) (x : Demand s) :
    refusal? (s.decider.perform a x.request x.editor x.time)
      = refusal? (s.decider.answer x.request a.state) := by
  unfold Decider.perform
  cases s.decider.answer x.request a.state <;> rfl

theorem state_heed (s : Subject) (a : Aggregate s.State s.Fact) (x : Demand s) :
    (s.heed a x).state = a.state := by
  unfold heed Decider.perform
  cases s.decider.answer x.request a.state <;> rfl

/-- Every call of a batch is answered on the state that was loaded. -/
theorem answersOn_eq (s : Subject) (a : Aggregate s.State s.Fact) (xs : List (Demand s)) :
    s.answersOn a xs = xs.map fun x => refusal? (s.decider.answer x.request a.state) := by
  induction xs generalizing a with
  | nil => rfl
  | cons x xs ih =>
    rw [answersOn, ih, state_heed, refusal?_perform]
    rfl

theorem heedAll_concat (s : Subject) (a : Aggregate s.State s.Fact) (xs : List (Demand s))
    (x : Demand s) : s.heedAll a (xs ++ [x]) = s.heed (s.heedAll a xs) x :=
  List.foldl_append ..

/-- A state after calls that are all decided on the state `l`. -/
def decidedOn (s : Subject) (l : s.State) (xs : List (Demand s)) (m : s.State) : s.State :=
  xs.foldl (fun m x => (s.decider.reply l x.request m).2) m

theorem decidedOn_concat (s : Subject) (l : s.State) (xs : List (Demand s)) (x : Demand s)
    (m : s.State) :
    s.decidedOn l (xs ++ [x]) m = (s.decider.reply l x.request (s.decidedOn l xs m)).2 :=
  List.foldl_append ..

/-- Once everything is taken in that calls left pending, the state is the one after these calls,
decided on the state that they met. -/
theorem state_settle_heedAll (s : Subject) (a : Aggregate s.State s.Fact) (fresh : a.pending = [])
    (xs : List (Demand s)) :
    (s.decider.settle (s.heedAll a xs)).state = s.decidedOn a.state xs a.state := by
  induction xs using List.reverseRecOn with
  | nil =>
    unfold heedAll Decider.settle
    rw [List.foldl_nil, fresh]
    rfl
  | append_singleton xs x ih =>
    have hstate : (s.heedAll a xs).state = a.state :=
      ((provisional_of_pending_eq_nil fresh).heedAll xs).state
    rw [heedAll_concat, decidedOn_concat, ← ih]
    unfold heed Decider.perform Decider.reply
    rw [hstate]
    cases s.decider.answer x.request a.state with
    | error e => rfl
    | ok fact =>
      dsimp only
      unfold Decider.record Decider.settle
      rw [List.foldl_append]
      rfl

/-- A batch of which nothing is pending leaves nothing behind. -/
theorem batch_of_pending_eq_nil (ha : s.decider.load log = .ok a) {xs : List (Demand s)}
    (hp : (s.heedAll a xs).pending = []) : s.batch log xs = log := by
  unfold batch Decider.commit
  rw [ha]
  dsimp only
  rw [if_pos (List.isEmpty_iff.2 hp)]

/-- A batch whose identifier is blank leaves nothing behind. -/
theorem batch_of_blank (takes : log.Takes) (ha : s.decider.load log = .ok a)
    (blank : Text.allBlank s.stream.id = true) (xs : List (Demand s)) : s.batch log xs = log := by
  by_cases hp : (s.heedAll a xs).pending = []
  · exact batch_of_pending_eq_nil ha hp
  · unfold batch
    rw [ha]
    dsimp only
    rw [commit_eq takes, if_neg hp, if_pos blank]

theorem settle_of_pending_eq_nil {b : Aggregate s.State s.Fact} (h : b.pending = []) :
    s.decider.settle b = b := by
  obtain ⟨sequence, state, pending⟩ := b
  cases h
  rfl

/-- A batch leaves the aggregate that its commit comes to. -/
theorem batch_of_load (n : log.Numbered) (takes : log.Takes) (ha : s.decider.load log = .ok a)
    (named : Text.allBlank s.stream.id = false) (xs : List (Demand s)) :
    (s.batch log xs).Numbered ∧ (s.batch log xs).Takes ∧
      s.decider.load (s.batch log xs) = .ok (s.decider.settle (s.heedAll a xs)) := by
  have fresh : a.pending = [] := Decider.pending_of_replay ha
  have hb : Provisional a (s.heedAll a xs) := (provisional_of_pending_eq_nil fresh).heedAll xs
  have hhead : log.head s.stream.kind s.stream.id = (s.heedAll a xs).sequence := by
    rw [hb.sequence]
    exact (n.sequence_of_load ha).symm
  by_cases hp : (s.heedAll a xs).pending = []
  · rw [batch_of_pending_eq_nil ha hp, settle_of_pending_eq_nil hp, hb.eq_of_pending_eq_nil fresh hp]
    exact ⟨n, takes, ha⟩
  · unfold batch
    rw [ha]
    dsimp only
    rw [commit_eq takes, if_neg hp, if_neg (Bool.eq_false_iff.1 named), if_pos hhead]
    exact ⟨n.place (.inr hhead), takes.congr rfl, hb.load_placed n fresh ha⟩

theorem answers_of_load (ha : s.decider.load log = .ok a) (xs : List (Demand s)) :
    s.answers log xs = xs.map fun x => refusal? (s.decider.answer x.request a.state) := by
  unfold answers
  rw [ha]
  exact s.answersOn_eq a xs

/-! ## One by one -/

theorem oneByOne_concat (s : Subject) (log : EventLog) (xs : List (Demand s)) (x : Demand s) :
    s.oneByOne log (xs ++ [x]) = s.batch (s.oneByOne log xs) [x] :=
  List.foldl_append ..

theorem answersOneByOne_concat (s : Subject) (log : EventLog) (xs : List (Demand s))
    (x : Demand s) :
    s.answersOneByOne log (xs ++ [x])
      = s.answersOneByOne log xs ++ s.answers (s.oneByOne log xs) [x] := by
  induction xs generalizing log with
  | nil => exact List.append_nil _
  | cons y ys ih =>
    rw [List.cons_append, answersOneByOne, answersOneByOne, ih, List.append_assoc]
    rfl

/-- Calls that are made one by one leave a subject that loads. -/
theorem oneByOne_of_load (n : log.Numbered) (takes : log.Takes) (ha : s.decider.load log = .ok a)
    (xs : List (Demand s)) :
    (s.oneByOne log xs).Numbered ∧ (s.oneByOne log xs).Takes ∧
      ∃ m, s.decider.load (s.oneByOne log xs) = .ok m := by
  induction xs using List.reverseRecOn with
  | nil => exact ⟨n, takes, a, ha⟩
  | append_singleton xs x ih =>
    obtain ⟨n', takes', m, hm⟩ := ih
    rw [oneByOne_concat]
    cases hid : Text.allBlank s.stream.id with
    | true =>
      rw [batch_of_blank takes' hm hid]
      exact ⟨n', takes', m, hm⟩
    | false =>
      obtain ⟨n'', takes'', hload⟩ := batch_of_load n' takes' hm hid [x]
      exact ⟨n'', takes'', _, hload⟩

/-- No calls at all are alike. -/
theorem alike_nil (ha : s.decider.load log = .ok a) : s.Alike log [] where
  answers := by
    rw [answers_of_load ha]
    rfl
  state := by
    have hp : (s.heedAll a []).pending = [] := Decider.pending_of_replay ha
    rw [batch_of_pending_eq_nil ha hp]
    rfl

/-- What calls come to in a batch and one by one, if the identifier is not blank. -/
theorem alike_iff_of_load (n : log.Numbered) (takes : log.Takes) (ha : s.decider.load log = .ok a)
    (named : Text.allBlank s.stream.id = false) (xs : List (Demand s)) :
    s.Alike log xs ↔
      (xs.map fun x => refusal? (s.decider.answer x.request a.state)) = s.answersOneByOne log xs ∧
        .ok (s.decidedOn a.state xs a.state)
          = (s.decider.load (s.oneByOne log xs)).map (·.state) := by
  have hstate := state_settle_heedAll s a (Decider.pending_of_replay ha) xs
  constructor
  · rintro ⟨hanswers, hload⟩
    rw [answers_of_load ha] at hanswers
    rw [(batch_of_load n takes ha named xs).2.2] at hload
    refine ⟨hanswers, ?_⟩
    rw [← hstate]
    exact hload
  · rintro ⟨hanswers, hload⟩
    refine ⟨(answers_of_load ha xs).trans hanswers, ?_⟩
    rw [(batch_of_load n takes ha named xs).2.2, ← hload, ← hstate]
    rfl

/-- If the identifier is blank, nothing is ever stored, and all calls are alike. -/
theorem alike_of_blank (takes : log.Takes) (ha : s.decider.load log = .ok a)
    (blank : Text.allBlank s.stream.id = true) (xs : List (Demand s)) :
    s.oneByOne log xs = log ∧ s.Alike log xs := by
  have hbatch (ys : List (Demand s)) : s.batch log ys = log := batch_of_blank takes ha blank ys
  have hone : s.oneByOne log xs = log := by
    induction xs with
    | nil => rfl
    | cons x xs ih =>
      change s.oneByOne (s.batch log [x]) xs = log
      rw [hbatch, ih]
  refine ⟨hone, ⟨?_, by rw [hbatch, hone]⟩⟩
  rw [answers_of_load ha]
  clear hone
  induction xs with
  | nil => rfl
  | cons x xs ih =>
    rw [List.map_cons, ih, answersOneByOne, hbatch, answers_of_load ha]
    rfl

/-- One more call keeps calls alike exactly if it is timely. -/
theorem alike_concat_iff (n : log.Numbered) (takes : log.Takes) (ha : s.decider.load log = .ok a)
    {xs : List (Demand s)} {m : Aggregate s.State s.Fact}
    (hm : s.decider.load (s.oneByOne log xs) = .ok m) (h : s.Alike log xs) (x : Demand s) :
    s.Alike log (xs ++ [x]) ↔ s.Timely a.state m.state x.request := by
  rw [timely_iff]
  cases hid : Text.allBlank s.stream.id with
  | true =>
    obtain ⟨hone, -⟩ := alike_of_blank takes ha hid xs
    rw [hone, ha] at hm
    cases hm
    exact ⟨fun _ => rfl, fun _ => (alike_of_blank takes ha hid (xs ++ [x])).2⟩
  | false =>
    obtain ⟨n', takes', -⟩ := oneByOne_of_load n takes ha xs
    obtain ⟨hanswers, hstate⟩ := (alike_iff_of_load n takes ha hid xs).1 h
    rw [hm] at hstate
    have hstate : s.decidedOn a.state xs a.state = m.state := Except.ok.inj hstate
    have hsettled : (s.decider.settle (s.heedAll m [x])).state
        = (s.decider.reply m.state x.request m.state).2 :=
      state_settle_heedAll s m (Decider.pending_of_replay hm) [x]
    have hone : (s.decider.load (s.oneByOne log (xs ++ [x]))).map (·.state)
        = .ok (s.decider.reply m.state x.request m.state).2 := by
      rw [oneByOne_concat, (batch_of_load n' takes' hm hid [x]).2.2, ← hsettled]
      rfl
    rw [alike_iff_of_load n takes ha hid, hone, answersOneByOne_concat, List.map_append, hanswers,
      answers_of_load hm, decidedOn_concat, hstate, List.append_cancel_left_eq, List.map_cons,
      List.map_cons, ← Decider.reply_fst _ _ _ m.state, ← Decider.reply_fst _ m.state _ m.state]
    unfold Decider.Indifferent
    rw [Prod.ext_iff]
    exact and_congr ⟨fun h => List.head_eq_of_cons_eq h, fun h => congrArg (fun o => [o]) h⟩
      ⟨fun h => Except.ok.inj h, fun h => congrArg Except.ok h⟩

/-! ## When they come to the same -/

/-- What calls on the aggregate `a` that was loaded from `log` come to, with one commit behind
them. -/
structure Batched (s : Subject) (log : EventLog) (a : Aggregate s.State s.Fact)
    (calls : List (Demand s)) : Prop where
  /-- Every call is answered as on the state that was loaded. -/
  answers : s.answers log calls
    = calls.map fun x => refusal? (s.decider.answer x.request a.state)
  /-- Everything that was answered with a fact takes its turn then. -/
  state : Text.allBlank s.stream.id = false →
    (s.decider.load (s.batch log calls)).map (·.state) = .ok (s.decidedOn a.state calls a.state)
  /-- If the identifier is blank, nothing is stored. -/
  blank : Text.allBlank s.stream.id = true → s.batch log calls = log
  /-- At each of their beginnings the calls come to what they come to one by one exactly if every
  call is timely. -/
  alike_iff : (∀ pre, pre <+: calls → s.Alike log pre) ↔
    ∀ pre x post, calls = pre ++ x :: post →
      ∃ m, s.decider.load (s.oneByOne log pre) = .ok m ∧ s.Timely a.state m.state x.request

/-- Calls with one more are alike at each of their beginnings exactly if they were, and the last one
is timely. -/
theorem alike_prefixes_iff (n : log.Numbered) (takes : log.Takes)
    (ha : s.decider.load log = .ok a) (calls : List (Demand s)) :
    (∀ pre, pre <+: calls → s.Alike log pre) ↔
      ∀ pre x post, calls = pre ++ x :: post →
        ∃ m, s.decider.load (s.oneByOne log pre) = .ok m ∧ s.Timely a.state m.state x.request := by
  induction calls using List.reverseRecOn with
  | nil =>
    constructor
    · intro _ pre x post heq
      simp at heq
    · intro _ pre hpre
      rw [List.prefix_nil.1 hpre]
      exact alike_nil ha
  | append_singleton xs y ih =>
    obtain ⟨-, -, m, hm⟩ := oneByOne_of_load n takes ha xs
    constructor
    · intro h
      have hxs : ∀ pre, pre <+: xs → s.Alike log pre := fun pre hpre =>
        h pre (hpre.trans (List.prefix_append xs [y]))
      intro pre x post heq
      rcases split_of_concat heq with ⟨rfl, rfl, rfl⟩ | ⟨rest, -, hxs'⟩
      · exact ⟨m, hm, (alike_concat_iff n takes ha hm (hxs xs List.prefix_rfl) y).1
          (h _ List.prefix_rfl)⟩
      · exact ih.1 hxs pre x rest hxs'
    · intro h
      have hxs : ∀ pre, pre <+: xs → s.Alike log pre := ih.2 fun pre x post heq =>
        h pre x (post ++ [y]) (by rw [heq, List.append_assoc, List.cons_append])
      intro pre hpre
      rcases List.prefix_concat_iff.1 hpre with rfl | hpre
      · obtain ⟨m', hm', htimely⟩ := h xs y [] rfl
        exact (alike_concat_iff n takes ha hm' (hxs xs List.prefix_rfl) y).2 htimely
      · exact hxs pre hpre

/-- **Batches.** Of every aggregate that loads behind any run of commands and any appends of others,
and of all calls on it with one commit behind them: each call is answered as on the state that was
loaded, and everything that was answered with a fact takes its turn at the commit, unless the
identifier is blank and nothing is stored. The calls come to what they come to one by one, at each of
their beginnings, exactly if every call is timely. -/
theorem batched_after {log : EventLog} (start : log.events = []) (takes : log.Takes)
    (errands : List Errand) (others : List Attempt) (s : Subject)
    (a : Aggregate s.State s.Fact)
    (loaded : s.decider.load ((log.after errands).tried others) = .ok a)
    (calls : List (Demand s)) : s.Batched ((log.after errands).tried others) a calls := by
  have n : ((log.after errands).tried others).Numbered :=
    (EventLog.kept_after start errands).numbered.tried others
  have htakes : ((log.after errands).tried others).Takes :=
    takes.congr ((EventLog.schemas_tried _ others).trans (EventLog.schemas_after log errands))
  refine
    { answers := answers_of_load loaded calls
      state := fun named => ?_
      blank := fun blank => batch_of_blank htakes loaded blank calls
      alike_iff := alike_prefixes_iff n htakes loaded calls }
  rw [(batch_of_load n htakes loaded named calls).2.2,
    ← state_settle_heedAll s a (Decider.pending_of_replay loaded)]
  rfl

/-- Two calls that leave each other alone. -/
def twoJoined : List (Demand (.members "iam")) :=
  [⟨.add "ada" ["IAM_OWNER"], "admin", ⟨0⟩⟩, ⟨.add "bob" ["IAM_OWNER"], "admin", ⟨1⟩⟩]

theorem batched_after_two_joined :
    EventLog.fresh.events = [] ∧ EventLog.fresh.Takes ∧
      (members "iam").decider.load EventLog.fresh = .ok (members "iam").decider.fresh ∧
        (members "iam").Alike EventLog.fresh twoJoined := by
  have htakes : EventLog.fresh.Takes := EventLog.takes_of_schemas (.inr rfl)
  have hload : (members "iam").decider.load EventLog.fresh = .ok (members "iam").decider.fresh :=
    EventLog.load_of_events_eq_nil rfl (members "iam")
  have hbatched (calls : List (Demand (.members "iam"))) :
      (members "iam").Batched EventLog.fresh (members "iam").decider.fresh calls :=
    batched_after rfl htakes [] [] (members "iam") _ hload calls
  refine ⟨rfl, htakes, hload, (hbatched twoJoined).alike_iff.2 ?_ _ List.prefix_rfl⟩
  intro pre x post heq
  match pre with
  | [] =>
    cases heq
    exact ⟨_, hload, .inr rfl⟩
  | [y] =>
    -- The first call on its own is a batch too.
    have hfirst := (hbatched [y]).state rfl
    cases hm : (members "iam").decider.load ((members "iam").batch EventLog.fresh [y]) with
    | error e =>
      rw [hm] at hfirst
      cases hfirst
    | ok m =>
      rw [hm] at hfirst
      cases heq
      have hstate : m.state = _ := Except.ok.inj hfirst
      refine ⟨m, hm, .inr ?_⟩
      rw [hstate]
      rfl
  | _ :: _ :: pre =>
    simp [twoJoined] at heq

/-- Two additions in one batch are both accepted, where the second of two is refused else. -/
theorem not_alike_two_added :
    (lockout (.org "acme")).answers EventLog.fresh twoAdded = [none, none] ∧
      (lockout (.org "acme")).answersOneByOne EventLog.fresh twoAdded = [none, some .violation] ∧
        ¬(lockout (.org "acme")).Alike EventLog.fresh twoAdded := by
  have hbatch : (lockout (.org "acme")).answers EventLog.fresh twoAdded = [none, none] := by
    decide +kernel
  have hone : (lockout (.org "acme")).answersOneByOne EventLog.fresh twoAdded
      = [none, some .violation] := by
    decide +kernel
  refine ⟨hbatch, hone, fun h => ?_⟩
  have heq := h.answers
  rw [hbatch, hone] at heq
  cases heq

end Subject

end Chronicle
