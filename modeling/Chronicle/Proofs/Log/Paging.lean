import Chronicle.Proofs.Log.Appends
import Chronicle.Proofs.Log.Behind
/-!
# Paging through the log

A reader asks for the events of a filter in pages. It goes on behind the last position that it was
given, and stops at a page that is not full. Others append meanwhile. The pages put together are
what one query without a cap gives on the log as it was when the last page was asked for.

* `Filter.Selects`: what a filter asks of an event, criterion by criterion;
* `Pager`, `Pager.read`: the reader and its next page;
* `Reading`: a reader beside a log that grows;
* `Reading.Kept`, `Reading.Kept.act`: the invariant, and what one act makes of it;
* `Reading.Faithful`: what is said of the pages that were read;
* **`Reading.faithful_run`**.
-/

namespace Chronicle

/-! ## What a filter asks for -/

namespace Filter

/-- The same filter without a cap. -/
def uncapped (f : Filter) : Filter := { f with cap := none }

/-- What a filter asks of an event. Types that are not listed and restrictions that are not made ask
for nothing. -/
structure Selects (f : Filter) (e : Event) : Prop where
  position : f.after < e.position
  kind : f.kinds ≠ [] → e.stream.kind ∈ f.kinds
  tag : f.tags ≠ [] → e.tag ∈ f.tags
  id : ∀ id, f.id = some id → e.stream.id = id
  owner : ∀ owner, f.owner = some owner → e.stream.owner = owner

theorem listed_iff {types : List String} {t : String} :
    listed types t = true ↔ (types ≠ [] → t ∈ types) := by
  cases types <;> simp [listed]

theorem met_iff {restriction : Option String} {s : String} :
    met restriction s = true ↔ ∀ r, restriction = some r → s = r := by
  cases restriction with
  | none => simp [met]
  | some r => simp [met, eq_comm (a := s)]

theorem admits_iff {f : Filter} {e : Event} : f.admits e = true ↔ f.Selects e := by
  simp only [admits, Bool.and_eq_true, decide_eq_true_eq, listed_iff, met_iff]
  constructor
  · rintro ⟨⟨⟨⟨hposition, hkind⟩, htag⟩, hid⟩, howner⟩
    exact ⟨hposition, hkind, htag, hid, howner⟩
  · rintro ⟨hposition, hkind, htag, hid, howner⟩
    exact ⟨⟨⟨⟨hposition, hkind⟩, htag⟩, hid⟩, howner⟩

/-- The lower bound that a filter has already changes nothing. -/
theorem startingAfter_after (f : Filter) : f.startingAfter f.after = f := by
  simp [startingAfter]

end Filter

/-- Without a cap a query gives everything behind the lower bound. -/
theorem EventLog.query_uncapped (log : EventLog) (f : Filter) :
    log.query f.uncapped = log.behind f f.after := by
  unfold behind
  rw [f.startingAfter_after]
  rfl

theorem EventLog.mem_query_uncapped {log : EventLog} {f : Filter} {e : Event} :
    e ∈ log.query f.uncapped ↔ e ∈ log.events ∧ f.Selects e := by
  rw [← Filter.admits_iff]
  exact List.mem_filter

/-! ## The reader -/

/-- A reader of the events that `filter` selects, `size` in a page. -/
structure Pager where
  filter : Filter
  size : Nat
  /-- The last position that it was given. -/
  mark : Int
  pages : List (List Event) := []
  /-- Whether the last page was not full. -/
  done : Bool := false

namespace Pager

/-- A reader that has read nothing yet. -/
def start (f : Filter) (n : Nat) : Pager := { filter := f, size := n, mark := f.after }

/-- The pages put together. -/
def events (p : Pager) : List Event := p.pages.flatten

/-- The query for the next page. -/
def query (p : Pager) : Filter := (p.filter.startingAfter p.mark).capped p.size

/-- Reads the next page, unless the last one was not full. -/
def read (p : Pager) (log : EventLog) : Pager :=
  if p.done then p
  else
    let page := log.query p.query
    { p with
      mark := markBehind p.mark page
      pages := p.pages ++ [page]
      done := decide (page.length < p.size) }

section read

variable {p : Pager} (log : EventLog)

theorem read_of_done (h : p.done = true) : p.read log = p := if_pos h

theorem read_of_not_done (h : p.done = false) :
    p.read log = { p with
      mark := markBehind p.mark (log.query p.query)
      pages := p.pages ++ [log.query p.query]
      done := decide ((log.query p.query).length < p.size) } := by
  simp [read, h]

theorem events_read (h : p.done = false) :
    (p.read log).events = p.events ++ log.query p.query := by
  rw [read_of_not_done log h]
  simp [events]

theorem length_pages_read (h : p.done = false) :
    (p.read log).pages.length = p.pages.length + 1 := by
  rw [read_of_not_done log h]
  exact List.length_append

end read
end Pager

/-- A reader beside the log. -/
structure Reading where
  log : EventLog
  pager : Pager
  /-- The log as it was when the last page was asked for. -/
  seen : EventLog

namespace Reading

/-- What happens: somebody appends something, or the next page is read. -/
inductive Act where
  | append (a : Attempt)
  | read

/-- A reader before its first page. -/
def start (log : EventLog) (f : Filter) (n : Nat) : Reading := ⟨log, .start f n, log⟩

def act (r : Reading) : Act → Reading
  | .append a => { r with log := a.land r.log }
  | .read =>
    { r with pager := r.pager.read r.log, seen := if r.pager.done then r.seen else r.log }

def run (r : Reading) (acts : List Act) : Reading := acts.foldl act r

theorem act_read_of_done {r : Reading} (h : r.pager.done = true) : r.act .read = r := by
  simp [act, Pager.read_of_done, h]

theorem act_read_of_not_done {r : Reading} (h : r.pager.done = false) :
    r.act .read = ⟨r.log, r.pager.read r.log, r.log⟩ := by
  simp [act, h]

/-! ## The invariant -/

/-- The pages that were read so far, of a log that was `log₀` at first, are the start of what is to
be read, and all of it when the reader is done. -/
structure Kept (log₀ : EventLog) (f : Filter) (n : Nat) (r : Reading) : Prop where
  filter : r.pager.filter = f
  size : r.pager.size = n
  numbered : r.log.Numbered
  since : log₀.events <+: r.seen.events
  seen : r.seen.events <+: r.log.events
  mark : r.pager.mark = markBehind f.after r.pager.events
  reached : r.pager.events <+: r.seen.behind f f.after
  full : r.pager.done = false → r.pager.events.length = n * r.pager.pages.length
  finished : r.pager.done = true →
    r.pager.events = r.seen.behind f f.after ∧
      r.pager.pages.length = r.pager.events.length / n + 1

theorem kept_start {log : EventLog} (numbered : log.Numbered) (f : Filter) (n : Nat) :
    (start log f n).Kept log f n where
  filter := rfl
  size := rfl
  numbered := numbered
  since := List.prefix_rfl
  seen := List.prefix_rfl
  mark := rfl
  reached := List.nil_prefix
  full _ := rfl
  finished h := by cases h

namespace Kept

variable {log₀ : EventLog} {f : Filter} {n : Nat} {r : Reading}

theorem append (h : r.Kept log₀ f n) (a : Attempt) : (r.act (.append a)).Kept log₀ f n :=
  { h with
    numbered := h.numbered.land a
    seen := h.seen.trans Attempt.prefix_land }

/-- The next page is the start of what is behind the last position that was given. -/
theorem page_eq (h : r.Kept log₀ f n) :
    r.log.query r.pager.query = (r.log.behind f r.pager.mark).take n := by
  unfold Pager.query
  rw [h.filter, h.size, EventLog.query_startingAfter_capped]

/-- What is to be read is what was read, and what is behind it. -/
theorem split (h : r.Kept log₀ f n) :
    r.log.behind f f.after = r.pager.events ++ r.log.behind f r.pager.mark := by
  rw [h.mark]
  exact h.numbered.behind_markBehind (h.reached.trans (EventLog.behind_prefix h.seen))

theorem read (h : r.Kept log₀ f n) (hn : 0 < n) : (r.act .read).Kept log₀ f n := by
  cases hdone : r.pager.done with
  | true => rwa [act_read_of_done hdone]
  | false =>
    have hfull := h.full hdone
    have hsplit := h.split
    have hevents := Pager.events_read r.log hdone
    have hpages := Pager.length_pages_read r.log hdone
    have hread := Pager.read_of_not_done r.log hdone
    rw [h.page_eq] at hevents hread
    rw [act_read_of_not_done hdone]
    generalize r.log.behind f r.pager.mark = rest at hsplit hevents hread
    have hend : (r.pager.read r.log).done = decide (rest.length < n) := by
      rw [hread, h.size, List.length_take, decide_eq_decide]
      omega
    refine ⟨?_, ?_, h.numbered, h.since.trans h.seen, List.prefix_rfl, ?_, ?_, ?_, ?_⟩
    · rw [hread]
      exact h.filter
    · rw [hread]
      exact h.size
    · rw [hevents, markBehind_append, ← h.mark, hread]
    · rw [hevents, hsplit]
      exact (List.prefix_append_right_inj _).2 (List.take_prefix _ _)
    · intro hnot
      have hlong : n ≤ rest.length := by simpa [hend] using hnot
      rw [hevents, hpages, List.length_append, hfull, List.length_take_of_le hlong, Nat.mul_succ]
    · intro hlast
      have hshort : rest.length < n := by simpa [hend] using hlast
      rw [hevents, hpages, List.take_of_length_le (Nat.le_of_lt hshort), List.length_append, hfull,
        Nat.mul_add_div hn, Nat.div_eq_of_lt hshort]
      exact ⟨hsplit.symm, rfl⟩

/-- **One act** keeps what was read the start of what is to be read. -/
theorem act (h : r.Kept log₀ f n) (hn : 0 < n) : (a : Act) → (r.act a).Kept log₀ f n
  | .append a => h.append a
  | .read => h.read hn

theorem run (h : r.Kept log₀ f n) (hn : 0 < n) (acts : List Act) :
    (r.run acts).Kept log₀ f n := by
  induction acts generalizing r with
  | nil => exact h
  | cons a acts ih => exact ih (h.act hn a)

/-! ## The last page -/

/-- A reader with more pages than the events fill is done. -/
theorem done_of_pages (h : r.Kept log₀ f n) (hn : 0 < n)
    (hpages : (r.log.behind f f.after).length / n + 1 ≤ r.pager.pages.length) :
    r.pager.done = true := by
  by_contra hnot
  have hfull := h.full (by simpa using hnot)
  have hle := (h.reached.trans (EventLog.behind_prefix h.seen)).length_le
  have hlt := Nat.lt_mul_div_succ (r.log.behind f f.after).length hn
  have := Nat.mul_le_mul_left n hpages
  omega

theorem run_of_done (hdone : r.pager.done = true) (k : Nat) :
    r.run (List.replicate k .read) = r := by
  induction k with
  | zero => rfl
  | succ k ih =>
    rw [List.replicate_succ, Reading.run, List.foldl_cons, act_read_of_done hdone]
    exact ih

/-- Reading on comes to an end. -/
theorem done_of_reads (h : r.Kept log₀ f n) (hn : 0 < n) {k : Nat}
    (hk : (r.log.behind f f.after).length / n + 1 ≤ r.pager.pages.length + k) :
    (r.run (List.replicate k .read)).pager.done = true := by
  induction k generalizing r with
  | zero => exact h.done_of_pages hn hk
  | succ k ih =>
    cases hdone : r.pager.done with
    | true => rwa [run_of_done hdone]
    | false =>
      refine ih (h.read hn) ?_
      rw [act_read_of_not_done hdone]
      dsimp only
      rw [Pager.length_pages_read r.log hdone]
      omega

end Kept

/-! ## Without appends -/

theorem run_of_not_append {log : EventLog} {f : Filter} {n : Nat} {acts : List Act}
    (h : ∀ a, .append a ∉ acts) :
    ((start log f n).run acts).log = log ∧ ((start log f n).run acts).seen = log := by
  suffices hall : ∀ r : Reading, r.log = log → r.seen = log →
      (r.run acts).log = log ∧ (r.run acts).seen = log from hall _ rfl rfl
  intro r hlog hseen
  induction acts generalizing r with
  | nil => exact ⟨hlog, hseen⟩
  | cons a acts ih =>
    cases a with
    | append a => exact absurd List.mem_cons_self (h a)
    | read =>
      have hrest (a : Attempt) : .append a ∉ acts := fun ha => h a (List.mem_cons_of_mem _ ha)
      refine ih hrest _ hlog ?_
      change (if r.pager.done then r.seen else r.log) = log
      split
      · exact hseen
      · exact hlog

/-- What is said of a reader of `f`, `n` in a page, that started on `log₀`. -/
structure Faithful (log₀ : EventLog) (f : Filter) (n : Nat) (r : Reading) : Prop where
  /-- The log as it was when the last page was asked for has all that the log had at first. -/
  since : log₀.events <+: r.seen.events
  seen : r.seen.events <+: r.log.events
  /-- What was read so far is in ascending position, so that no event is read twice. -/
  ascending : r.pager.events.Pairwise fun a b => a.position < b.position
  /-- What was read so far is the start of what a query without a cap gives. -/
  reached : r.pager.events <+: r.seen.query f.uncapped
  /-- At the end it is all of that, -/
  complete : r.pager.done = true → r.pager.events = r.seen.query f.uncapped
  /-- which is exactly what the filter asks for, -/
  mem_iff : r.pager.done = true → ∀ e, e ∈ r.pager.events ↔ e ∈ r.seen.events ∧ f.Selects e
  /-- in no more pages than it takes to read that and see that there is no more. -/
  pages : r.pager.done = true →
    r.pager.pages.length = (r.seen.query f.uncapped).length / n + 1
  /-- From wherever the reader stands, it comes to the end by reading on. -/
  ends : ∀ k, (r.log.query f.uncapped).length / n + 1 ≤ r.pager.pages.length + k →
    (r.run (List.replicate k .read)).pager.done = true

theorem Kept.faithful {log₀ : EventLog} {f : Filter} {n : Nat} {r : Reading}
    (h : r.Kept log₀ f n) (hn : 0 < n) : r.Faithful log₀ f n := by
  have hreached : r.pager.events <+: r.seen.query f.uncapped := by
    rw [EventLog.query_uncapped]
    exact h.reached
  have hcomplete (hdone : r.pager.done = true) : r.pager.events = r.seen.query f.uncapped := by
    rw [EventLog.query_uncapped]
    exact (h.finished hdone).1
  refine ⟨h.since, h.seen, ?_, hreached, hcomplete, fun hdone e => ?_, fun hdone => ?_, fun k => ?_⟩
  · exact h.numbered.behind_ascending.sublist
      (h.reached.trans (EventLog.behind_prefix h.seen)).sublist
  · rw [hcomplete hdone]
    exact EventLog.mem_query_uncapped
  · rw [← hcomplete hdone]
    exact (h.finished hdone).2
  · rw [EventLog.query_uncapped]
    exact h.done_of_reads hn

end Reading

/-! ## The stream of an aggregate -/

/-- What is loaded of the aggregate `id` of type `kind`: its stream, in ascending sequence, which is
the order of its positions too. -/
structure EventLog.Loads (log : EventLog) (kind id : String) : Prop where
  eq : log.history kind id = log.ofStream kind id
  mem_iff : ∀ e, e ∈ log.history kind id ↔
    e ∈ log.events ∧ e.stream.kind = kind ∧ e.stream.id = id
  sequence : (log.history kind id).map (·.sequence) = oneTo (log.history kind id).length
  ascending : (log.history kind id).Pairwise fun a b => a.position < b.position

theorem EventLog.Numbered.loads {log : EventLog} (n : log.Numbered) (kind id : String) :
    log.Loads kind id := by
  have heq := n.history_eq kind id
  refine ⟨heq, fun e => ?_, ?_, ?_⟩ <;> rw [heq]
  · simp [ofStream, onStream]
  · simpa using (n.sequence kind id).eq_oneTo
  · exact n.ascending.filter _

/-- **Paging.** A log comes about by any appends. A reader asks it for the events of a filter, one
or more in a page, while others append what they like. Then

* the reader comes to its end, and has read what a query without a cap gives on the log as it was
  when the last page was asked for: what the filter asks for, in ascending position, once;
* if nothing was appended meanwhile, that is the log as it was from the start;
* the history of an aggregate is its stream, at any time. -/
theorem Reading.faithful_run (schemas : Option SchemaSet) (attempts : List Attempt) (f : Filter)
    {n : Nat} (hn : 0 < n) (acts : List Act) :
    let log := ({ schemas := schemas } : EventLog).tried attempts
    let r := (start log f n).run acts
    r.Faithful log f n ∧
    ((∀ a, .append a ∉ acts) → r.log = log ∧ r.seen = log) ∧
    ∀ kind id, r.log.Loads kind id := by
  intro log r
  have numbered : log.Numbered := (EventLog.numbered_of_events_eq_nil rfl).tried attempts
  have h : r.Kept log f n := (kept_start numbered f n).run hn acts
  exact ⟨h.faithful hn, run_of_not_append, h.numbered.loads⟩

/-- Pages of two from a log of three events, the first of which is not asked for. A fourth event is
appended behind the first page and is read on the second; a fifth one comes too late. -/
theorem Reading.faithful_run_grown :
    let draft (tag : String) : Draft := ⟨Uuid.nil, tag, .obj [], "eve", ⟨0⟩⟩
    let counter : Stream := { kind := "counter", id := "c", owner := "acme" }
    let log := EventLog.empty.tried [⟨counter, 0, [draft "set", draft "moved", draft "moved"], 3⟩]
    let late (n : Int) : Act := .append ⟨counter, n, [draft "moved"], n + 1⟩
    let r := (start log (Filter.all.ofTags ["moved"]) 2).run [.read, late 3, .read, late 4]
    0 < 2 ∧ r.pager.done = true ∧
      r.pager.pages.map (fun es => es.map (·.position)) = [[2, 3], [4]] ∧
      r.log.events.length = 5 ∧ r.Faithful log (Filter.all.ofTags ["moved"]) 2 := by
  intro draft counter log late r
  exact ⟨by decide, by decide +kernel, by decide +kernel, by decide +kernel,
    (faithful_run none [⟨counter, 0, [draft "set", draft "moved", draft "moved"], 3⟩]
      (Filter.all.ofTags ["moved"]) (by decide) _).1⟩

end Chronicle
