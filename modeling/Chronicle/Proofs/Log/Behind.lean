import Chronicle.Proofs.Log.Numbering
/-!
# What a position covers

A position splits the events that a filter admits into those it covers and those behind it. Moving
up to the next admitted event takes that event from one side to the other, and a log grows behind
every position that it has reached.

* `EventLog.covered`, `EventLog.behind`: the two sides;
* **`EventLog.Numbered.split`**: both sides under a move up;
* **`EventLog.Numbered.next`**: the move to the next admitted event;
* `markBehind`, `EventLog.Numbered.behind_markBehind`: the move behind all events that are done;
* `EventLog.Numbered.covered_eq`, `EventLog.behind_prefix`: both sides when the log grows.
-/

namespace Chronicle

namespace Filter

variable {q : Filter} {e : Event} {w : Int}

/-- Raising the lower bound of a filter adds one condition. -/
theorem admits_startingAfter :
    (q.startingAfter w).admits e = (q.admits e && decide (w < e.position)) := by
  rw [Bool.eq_iff_iff]
  unfold admits startingAfter
  by_cases h : q.after < w
  · simp only [h, if_true, Bool.and_eq_true, decide_eq_true_eq]
    constructor
    · rintro ⟨⟨⟨⟨hw, hk⟩, ht⟩, hi⟩, ho⟩
      exact ⟨⟨⟨⟨⟨by omega, hk⟩, ht⟩, hi⟩, ho⟩, hw⟩
    · rintro ⟨⟨⟨⟨⟨-, hk⟩, ht⟩, hi⟩, ho⟩, hw⟩
      exact ⟨⟨⟨⟨hw, hk⟩, ht⟩, hi⟩, ho⟩
  · simp only [h, if_false, Bool.and_eq_true, decide_eq_true_eq]
    constructor
    · rintro ⟨⟨⟨⟨ha, hk⟩, ht⟩, hi⟩, ho⟩
      exact ⟨⟨⟨⟨⟨ha, hk⟩, ht⟩, hi⟩, ho⟩, by omega⟩
    · rintro ⟨h, -⟩
      exact h

end Filter

/-- The watermark behind the events that are done: the position of the last one, or the watermark
`w` from before. -/
def markBehind (w : Int) (done : List Event) : Int :=
  (done.getLast?.map (·.position)).getD w

section markBehind

variable {w : Int} {e : Event} {done : List Event}

theorem markBehind_cons : markBehind w (e :: done) = markBehind e.position done := by
  unfold markBehind
  rw [List.getLast?_cons]
  cases done.getLast? <;> rfl

theorem markBehind_concat : markBehind w (done ++ [e]) = e.position := by
  simp [markBehind]

theorem markBehind_append (w : Int) (done more : List Event) :
    markBehind w (done ++ more) = markBehind (markBehind w done) more := by
  induction done generalizing w with
  | nil => rfl
  | cons e done ih => rw [List.cons_append, markBehind_cons, markBehind_cons, ih]

end markBehind

namespace EventLog

/-- The events that `q` admits up to position `w`. -/
def covered (log : EventLog) (q : Filter) (w : Int) : List Event :=
  log.events.filter fun e => q.admits e && decide (e.position ≤ w)

/-- The events that `q` admits behind position `w`. -/
def behind (log : EventLog) (q : Filter) (w : Int) : List Event :=
  log.events.filter (q.startingAfter w).admits

section

variable {log : EventLog} {q : Filter} {w : Int} {e : Event}

theorem mem_covered_iff :
    e ∈ log.covered q w ↔ e ∈ log.events ∧ q.admits e = true ∧ e.position ≤ w := by
  simp [covered]

theorem mem_behind_iff :
    e ∈ log.behind q w ↔ e ∈ log.events ∧ q.admits e = true ∧ w < e.position := by
  simp [behind, Filter.admits_startingAfter]

/-- A page is the start of what is behind its lower bound. -/
theorem query_startingAfter_capped (n : Nat) :
    log.query ((q.startingAfter w).capped n) = (log.behind q w).take n :=
  rfl

/-! ## Growth -/

/-- What is behind a position stays there when the log grows. -/
theorem behind_prefix {log' : EventLog} (h : log.events <+: log'.events) :
    log.behind q w <+: log'.behind q w :=
  h.filter _

/-- A position that the log has reached covers the same events when the log grows. -/
theorem Numbered.covered_eq {log' : EventLog} (n : log'.Numbered)
    (h : log.events <+: log'.events) (hw : w ≤ log.events.length) :
    log'.covered q w = log.covered q w := by
  obtain ⟨es, he⟩ := h
  have hpos := n.position
  rw [← he, List.map_append] at hpos
  have hnil : (es.filter fun e => q.admits e && decide (e.position ≤ w)) = [] := by
    refine List.filter_eq_nil_iff.2 fun e hmem => ?_
    have := (hpos.of_append.mem (List.mem_map_of_mem hmem)).1
    rw [List.length_map] at this
    simp only [Bool.and_eq_true, decide_eq_true_eq]
    omega
  unfold covered
  rw [← he, List.filter_append, hnil, List.append_nil]

end

/-! ## Moves up -/

/-- Events in ascending order are split by any bound. -/
theorem filter_append_filter {at_ : Event → Int} {es : List Event}
    (h : es.Pairwise fun a b => at_ a < at_ b) (w : Int) :
    es.filter (fun e => decide (at_ e ≤ w)) ++ es.filter (fun e => decide (w < at_ e)) = es := by
  induction es with
  | nil => rfl
  | cons e es ih =>
    obtain ⟨he, h⟩ := List.pairwise_cons.1 h
    by_cases hw : at_ e ≤ w
    · have hw' : ¬w < at_ e := by omega
      simp only [List.filter_cons, hw, hw', decide_true, decide_false, if_true]
      exact congrArg (e :: ·) (ih h)
    · have hnil : es.filter (fun f => decide (at_ f ≤ w)) = [] := by
        refine List.filter_eq_nil_iff.2 fun f hf => ?_
        have := he f hf
        simp only [decide_eq_true_eq]
        omega
      have hw' : w < at_ e := by omega
      have ih := ih h
      rw [hnil, List.nil_append] at ih
      simp only [List.filter_cons, hw, hw', hnil, decide_true, decide_false, if_true, ih]
      rfl

namespace Numbered

variable {log : EventLog} {q : Filter} {w w' : Int} {e : Event} {rest : List Event}

theorem ascending (n : log.Numbered) :
    log.events.Pairwise fun a b => a.position < b.position :=
  List.pairwise_map.1 n.position.pairwise

/-- What a position covers is in ascending position. -/
theorem covered_ascending (n : log.Numbered) :
    (log.covered q w).Pairwise fun a b => a.position < b.position :=
  n.ascending.filter _

theorem behind_ascending (n : log.Numbered) :
    (log.behind q w).Pairwise fun a b => a.position < b.position :=
  n.ascending.filter _

theorem covered_zero (n : log.Numbered) (hw : w ≤ 0) : log.covered q w = [] := by
  refine List.filter_eq_nil_iff.2 fun e he => ?_
  have := n.position_pos he
  simp only [Bool.and_eq_true, decide_eq_true_eq]
  omega

/-- **Moves up.** What is passed on the way up moves from behind a position to under it. -/
theorem split (n : log.Numbered) (h : w ≤ w') :
    ∃ passed, log.behind q w = passed ++ log.behind q w' ∧
      log.covered q w' = log.covered q w ++ passed ∧ ∀ e ∈ passed, e.position ≤ w' := by
  have hw (e : Event) : (q.admits e && decide (w < e.position) && decide (w' < e.position))
      = (q.admits e && decide (w' < e.position)) := by
    cases q.admits e
    · rfl
    · simp only [Bool.true_and, ← Bool.decide_and, decide_eq_decide]
      omega
  have hw' (e : Event) : (q.admits e && decide (e.position ≤ w') && decide (e.position ≤ w))
      = (q.admits e && decide (e.position ≤ w)) := by
    cases q.admits e
    · rfl
    · simp only [Bool.true_and, ← Bool.decide_and, decide_eq_decide]
      omega
  refine ⟨(log.behind q w).filter fun e => decide (e.position ≤ w'), ?_, ?_, ?_⟩
  · rw [← filter_append_filter (n.behind_ascending (q := q) (w := w)) w']
    congr 1
    · rw [filter_append_filter n.behind_ascending]
    · simp only [behind, List.filter_filter]
      refine List.filter_congr fun e _ => ?_
      rw [Filter.admits_startingAfter, Filter.admits_startingAfter, Bool.and_comm, hw]
  · rw [← filter_append_filter (n.covered_ascending (q := q) (w := w')) w]
    congr 1
    · simp only [covered, List.filter_filter]
      refine List.filter_congr fun e _ => ?_
      rw [Bool.and_comm, hw']
    · simp only [behind, covered, List.filter_filter, Filter.admits_startingAfter]
      exact List.filter_congr fun e _ => by ac_rfl
  · intro e he
    exact of_decide_eq_true (List.mem_filter.1 he).2

/-- **The next event.** Moving up to the next admitted event takes that event alone. -/
theorem next (n : log.Numbered) (h : log.behind q w = e :: rest) :
    w < e.position ∧ log.behind q e.position = rest ∧
      log.covered q e.position = log.covered q w ++ [e] := by
  have he : w < e.position := (mem_behind_iff.1 (h ▸ List.mem_cons_self)).2.2
  obtain ⟨passed, hb, hc, hp⟩ := n.split (q := q) (Int.le_of_lt he)
  have hasc := n.behind_ascending (q := q) (w := w)
  rw [h] at hb hasc
  have hrest := (List.pairwise_cons.1 hasc).1
  cases passed with
  | nil =>
    rw [List.nil_append] at hb
    have := (mem_behind_iff.1 (hb ▸ List.mem_cons_self : e ∈ log.behind q e.position)).2.2
    omega
  | cons f passed =>
    obtain ⟨rfl, htail⟩ := List.cons.inj hb
    cases passed with
    | nil => exact ⟨he, htail.symm, hc⟩
    | cons g passed =>
      have h₁ := hrest g (by rw [htail]; exact List.mem_append_left _ List.mem_cons_self)
      have h₂ := hp g (by simp)
      omega

/-- What is behind `w` starts with what is done and goes on with what is behind that. -/
theorem behind_markBehind {done : List Event} (n : log.Numbered) (h : done <+: log.behind q w) :
    log.behind q w = done ++ log.behind q (markBehind w done) := by
  induction done generalizing w with
  | nil => rfl
  | cons e done ih =>
    obtain ⟨rest, hrest⟩ := h
    have hnext := (n.next hrest.symm).2.1
    rw [markBehind_cons, List.cons_append, ← ih (hnext ▸ List.prefix_append ..), hnext]
    exact hrest.symm

/-- What is admitted before the next admitted event is covered. -/
theorem mem_covered_of_before (n : log.Numbered) {before after : List Event} {e₀ : Event}
    (hlog : log.events = before ++ e :: after) (h : log.behind q w = e :: rest) (he₀ : e₀ ∈ before)
    (hadmits : q.admits e₀ = true) : e₀ ∈ log.covered q w := by
  have hmem : e₀ ∈ log.events := by
    rw [hlog]
    exact List.mem_append_left _ he₀
  have hlt : e₀.position < e.position := by
    have hasc := n.ascending
    rw [hlog] at hasc
    exact (List.pairwise_append.1 hasc).2.2 e₀ he₀ e List.mem_cons_self
  refine mem_covered_iff.2 ⟨hmem, hadmits, ?_⟩
  refine Int.not_lt.1 fun hw => ?_
  have hbehind : e₀ ∈ log.behind q w := mem_behind_iff.2 ⟨hmem, hadmits, hw⟩
  have hasc := n.behind_ascending (q := q) (w := w)
  rw [h] at hbehind hasc
  rcases List.mem_cons.1 hbehind with rfl | hrest
  · omega
  · have := (List.pairwise_cons.1 hasc).1 e₀ hrest
    omega

end Numbered
end EventLog
end Chronicle
