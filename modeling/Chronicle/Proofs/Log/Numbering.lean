import Chronicle.Event.Log
/-!
# How a log numbers its events

A log that was only ever appended to numbers its events from one on, and within each stream it
numbers the stream's events from one on. The head of a stream is then its length, and its history
is the part of the log that belongs to it.

* `CountsFrom`: consecutive numbers;
* `split_of_concat`: where a list with one more item is split;
* `EventLog.append_cases`, `EventLog.append_error_cases`: everything that an append can do;
* `EventLog.Numbered`, **`EventLog.Numbered.place`**: the invariant of a log;
* **`EventLog.Numbered.head_eq`**, **`EventLog.Numbered.history_eq`**.
-/

namespace Chronicle

/-! ## Consecutive numbers -/

/-- The numbers `n + 1`, `n + 2` and so on. -/
def CountsFrom : Int → List Int → Prop
  | _, [] => True
  | n, m :: rest => m = n + 1 ∧ CountsFrom (n + 1) rest

namespace CountsFrom

theorem append {n : Int} {xs ys : List Int} (hx : CountsFrom n xs)
    (hy : CountsFrom (n + xs.length) ys) : CountsFrom n (xs ++ ys) := by
  induction xs generalizing n with
  | nil => simpa using hy
  | cons m xs ih =>
    refine ⟨hx.1, ih hx.2 ?_⟩
    rw [List.length_cons] at hy
    rwa [show n + 1 + (xs.length : Int) = n + ((xs.length + 1 : Nat) : Int) by omega]

theorem of_append {n : Int} {xs ys : List Int} (h : CountsFrom n (xs ++ ys)) :
    CountsFrom (n + xs.length) ys := by
  induction xs generalizing n with
  | nil => simpa using h
  | cons m xs ih =>
    have := ih h.2
    rw [List.length_cons]
    rwa [show n + 1 + (xs.length : Int) = n + ((xs.length + 1 : Nat) : Int) by omega] at this

theorem mem {n m : Int} {xs : List Int} (h : CountsFrom n xs) (hm : m ∈ xs) :
    n < m ∧ m ≤ n + xs.length := by
  induction xs generalizing n with
  | nil => simp at hm
  | cons x xs ih =>
    rw [List.length_cons]
    obtain ⟨hx, h⟩ := h
    rcases List.mem_cons.1 hm with rfl | hm
    · omega
    · have := ih h hm
      omega

theorem pairwise {n : Int} {xs : List Int} (h : CountsFrom n xs) : xs.Pairwise (· < ·) := by
  induction xs generalizing n with
  | nil => exact .nil
  | cons x xs ih =>
    obtain ⟨hx, h⟩ := h
    refine List.pairwise_cons.2 ⟨fun m hm => ?_, ih h⟩
    have := (mem h hm).1
    omega

/-- The greatest of consecutive numbers is the last. -/
theorem foldl_max {n : Int} {xs : List Int} (h : CountsFrom n xs) :
    xs.foldl (fun a b => if a < b then b else a) n = n + xs.length := by
  induction xs generalizing n with
  | nil => simp
  | cons x xs ih =>
    obtain ⟨hx, h⟩ := h
    rw [List.foldl_cons, hx, if_pos (by omega), ih h, List.length_cons]
    omega

end CountsFrom

/-! ## One more item -/

/-- Where a list with one more item is split at an item: at the last one, or before it. -/
theorem split_of_concat {α : Type} {xs pre post : List α} {x y : α}
    (h : xs ++ [y] = pre ++ x :: post) :
    xs = pre ∧ y = x ∧ post = [] ∨ ∃ rest, post = rest ++ [y] ∧ xs = pre ++ x :: rest := by
  rcases List.eq_nil_or_concat post with rfl | ⟨rest, z, rfl⟩
  · obtain ⟨rfl, hlast⟩ := List.append_inj' h rfl
    exact .inl ⟨rfl, (List.cons.inj hlast).1, rfl⟩
  · rw [List.concat_eq_append] at h ⊢
    rw [← List.cons_append, ← List.append_assoc] at h
    obtain ⟨hxs, hlast⟩ := List.append_inj' h rfl
    rw [(List.cons.inj hlast).1]
    exact .inr ⟨rest, rfl, hxs⟩

namespace EventLog

/-! ## Appending -/

/-- The events of a stream, in the order of the log. -/
def ofStream (log : EventLog) (kind id : String) : List Event :=
  log.events.filter (onStream kind id)

section place

variable {stream : Stream} {count sequence : Int} {drafts : List Draft}

theorem countsFrom_position_place :
    CountsFrom count ((place stream count sequence drafts).map (·.position)) := by
  induction drafts generalizing count sequence with
  | nil => trivial
  | cons d rest ih => exact ⟨rfl, ih⟩

theorem countsFrom_sequence_place :
    CountsFrom sequence ((place stream count sequence drafts).map (·.sequence)) := by
  induction drafts generalizing count sequence with
  | nil => trivial
  | cons d rest ih => exact ⟨rfl, ih⟩

theorem stream_of_mem_place {e : Event} (h : e ∈ place stream count sequence drafts) :
    e.stream = stream := by
  induction drafts generalizing count sequence with
  | nil => simp [place] at h
  | cons d rest ih =>
    rcases List.mem_cons.1 h with rfl | h
    · rfl
    · exact ih h

theorem filter_place_self :
    (place stream count sequence drafts).filter (onStream stream.kind stream.id)
      = place stream count sequence drafts := by
  refine List.filter_eq_self.2 fun e he => ?_
  simp [onStream, stream_of_mem_place he]

theorem filter_place_of_ne {kind id : String} (h : ¬(stream.kind = kind ∧ stream.id = id)) :
    (place stream count sequence drafts).filter (onStream kind id) = [] := by
  refine List.filter_eq_nil_iff.2 fun e he => ?_
  simpa [onStream, stream_of_mem_place he] using h

end place

/-- **Appends.** An append that succeeds puts the placed drafts behind the log and does nothing
else. Unless it is empty, it found the head that its caller expected. -/
theorem append_cases {log log' : EventLog} {stream : Stream} {expected : Int}
    {drafts : List Draft} {stored : List Event}
    (h : log.append stream expected drafts = .ok (stored, log')) :
    validate log.schemas stream drafts = .ok () ∧
      stored = place stream log.events.length expected drafts ∧
      log' = { log with events := log.events ++ stored } ∧
      (drafts = [] ∨ log.head stream.kind stream.id = expected) := by
  unfold append at h
  cases hv : validate log.schemas stream drafts with
  | error e => simp [hv] at h
  | ok u =>
    cases drafts with
    | nil =>
      simp only [hv, List.isEmpty_nil, if_true, Except.ok.injEq, Prod.mk.injEq] at h
      obtain ⟨rfl, rfl⟩ := h
      exact ⟨rfl, rfl, by simp, .inl rfl⟩
    | cons d rest =>
      simp only [hv, List.isEmpty_cons] at h
      by_cases hh : log.head stream.kind stream.id = expected
      · simp only [hh, if_true] at h
        cases h
        exact ⟨rfl, rfl, rfl, .inr hh⟩
      · simp [hh] at h

theorem append_of_invalid {log : EventLog} {stream : Stream} {expected : Int}
    {drafts : List Draft} {e : Error} (h : validate log.schemas stream drafts = .error e) :
    log.append stream expected drafts = .error e := by
  unfold append
  rw [h]

/-- **Refusals.** An append is refused because it is not valid, or because the stream has another
head than its caller expected. -/
theorem append_error_cases {log : EventLog} {stream : Stream} {expected : Int}
    {drafts : List Draft} {e : Error} (h : log.append stream expected drafts = .error e) :
    validate log.schemas stream drafts = .error e ∨
      (e = .conflict stream.id expected (log.head stream.kind stream.id) ∧
        log.head stream.kind stream.id ≠ expected) := by
  unfold append at h
  cases hv : validate log.schemas stream drafts with
  | error err =>
    rw [hv] at h
    cases h
    exact .inl rfl
  | ok u =>
    rw [hv] at h
    dsimp only at h
    split at h
    · cases h
    · split at h
      · cases h
      · rename_i hne
        cases h
        exact .inr ⟨rfl, hne⟩

/-! ## The invariant -/

/-- A log numbers its events from one on, and so it does within each stream. -/
structure Numbered (log : EventLog) : Prop where
  position : CountsFrom 0 (log.events.map (·.position))
  sequence : ∀ kind id, CountsFrom 0 ((log.ofStream kind id).map (·.sequence))

/-- A log without events is numbered. -/
theorem numbered_of_events_eq_nil {log : EventLog} (h : log.events = []) : log.Numbered := by
  constructor
  · rw [h]
    trivial
  · intro kind id
    rw [ofStream, h]
    trivial

namespace Numbered

variable {log log' : EventLog} {stream : Stream} {expected : Int} {drafts : List Draft}
  {stored : List Event} {kind id : String}

/-- The head of a stream is the number of its events. -/
theorem head_eq (n : log.Numbered) (kind id : String) :
    log.head kind id = (log.ofStream kind id).length := by
  have h := n.sequence kind id
  unfold head
  rw [← (log.ofStream kind id).length_map (·.sequence)]
  rw [← ofStream]
  cases hs : (log.ofStream kind id).map (·.sequence) with
  | nil => rfl
  | cons s rest =>
    rw [hs] at h
    obtain ⟨rfl, h⟩ := h
    change rest.foldl _ (0 + 1) = _
    rw [h.foldl_max, List.length_cons]
    omega

theorem position_pos (n : log.Numbered) {e : Event} (h : e ∈ log.events) : 0 < e.position :=
  (n.position.mem (List.mem_map_of_mem h)).1

theorem position_le (n : log.Numbered) {e : Event} (h : e ∈ log.events) :
    e.position ≤ log.events.length := by
  have := (n.position.mem (List.mem_map_of_mem h)).2
  rw [List.length_map] at this
  omega

/-- The history of a stream is the part of the log that belongs to it. -/
theorem history_eq (n : log.Numbered) (kind id : String) :
    log.history kind id = log.ofStream kind id := by
  have hq : log.query (Filter.ofStream kind id) = log.ofStream kind id := by
    change log.events.filter _ = log.events.filter _
    refine List.filter_congr fun e he => ?_
    have hp := n.position_pos he
    rw [Bool.eq_iff_iff]
    simp only [Filter.admits, Filter.ofStream, Filter.ofKinds, Filter.ofId, Filter.all,
      Filter.listed, Filter.met, onStream, hp]
    simp [eq_comm (a := id)]
  have hs := (n.sequence kind id).pairwise
  rw [List.pairwise_map] at hs
  rw [history, hq]
  exact List.mergeSort_of_pairwise
    (hs.imp fun {a b} (h : a.sequence < b.sequence) => decide_eq_true (by omega))

/-- **Numbering.** Drafts that are placed behind the head of their stream keep a log numbered. -/
theorem place (n : log.Numbered)
    (hhead : drafts = [] ∨ log.head stream.kind stream.id = expected) :
    ({ log with events := log.events ++ place stream log.events.length expected drafts } :
      EventLog).Numbered := by
  constructor
  · rw [List.map_append]
    refine n.position.append ?_
    rw [List.length_map, Int.zero_add]
    exact countsFrom_position_place
  · intro kind id
    have hlength : ((log.events.filter (onStream kind id)).length : Int) = log.head kind id :=
      (n.head_eq kind id).symm
    rw [ofStream, List.filter_append, List.map_append]
    refine (n.sequence kind id).append ?_
    rw [List.length_map, Int.zero_add, ofStream, hlength]
    by_cases hs : stream.kind = kind ∧ stream.id = id
    · obtain ⟨rfl, rfl⟩ := hs
      rw [filter_place_self]
      rcases hhead with rfl | rfl
      · trivial
      · exact countsFrom_sequence_place
    · rw [filter_place_of_ne hs]
      trivial

/-- An append keeps a log numbered. -/
theorem append (n : log.Numbered) (h : log.append stream expected drafts = .ok (stored, log')) :
    log'.Numbered := by
  obtain ⟨-, rfl, rfl, hhead⟩ := append_cases h
  exact n.place hhead

end Numbered
end EventLog
end Chronicle
