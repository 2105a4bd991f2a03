import Mathlib.Data.Int.Order.Basic
import Chronicle.Time.Rfc3339
/-!
# Deadlines

Two steps on the way to a deadline can fail. The wait may be longer than any span that can be added
to an instant, and the sum may lie behind the last instant. Either failure gives the last instant. A
wait that is too long for a span is longer than all of time, so wherever it starts, its sum lies
behind the last instant too, and a deadline is the exact sum or the last instant, whichever is first.

* `Instant.first`, `Instant.Representable`: the instants that there are;
* `Instant.last_le_first_add_longestWait`: no wait that is too long leads to one of them;
* `Instant.min_le_deadline`, `Instant.deadline_eq_min`: where a deadline lies;
* `Calendar`, `Calendar.Exact`, `Calendar.deadline`: the two steps, on any calendar;
* `Calendar.deadline_eq`: every calendar that is exact comes to the same deadlines;
* **`Instant.deadline_saturates`**: deadlines in exact arithmetic.
-/

namespace Chronicle

/-! ## The instants that there are -/

namespace Instant

/-- The first representable instant, the start of the year -262143. -/
def first : Instant :=
  ⟨-8334601228800 * nanosPerSecond⟩

/-- There is such an instant: it is not before the first one and not behind the last one. -/
def Representable (t : Instant) : Prop :=
  first.nanos ≤ t.nanos ∧ t.nanos ≤ last.nanos

instance : DecidablePred Representable := fun _ => inferInstanceAs (Decidable (_ ∧ _))

example : Date.ofDays (first.secs.fdiv 86400) = ⟨-262143, 1, 1⟩ ∧ first.secs.fmod 86400 = 0 := by
  decide

example : Date.ofDays (last.secs.fdiv 86400) = ⟨262142, 12, 31⟩ ∧
    last.secs.fmod 86400 = 86399 ∧ last.subsecNanos = 999999999 := by
  decide

variable {now : Instant} {wait : Duration}

theorem nanos_add (now : Instant) (wait : Duration) :
    (now.add wait).nanos = now.nanos + wait.nanos := rfl

/-- All of time is shorter than the longest wait that can be added to an instant. -/
theorem last_le_first_add_longestWait : last.nanos ≤ first.nanos + longestWait := by
  decide

/-- A sum can only fail by being too late. -/
theorem representable_add_iff (h : now.Representable) :
    (now.add wait).Representable ↔ (now.add wait).nanos ≤ last.nanos := by
  have hfirst := h.1
  unfold Representable
  rw [nanos_add]
  omega

/-! ## Where a deadline lies -/

/-- No deadline is early: it is the sum or the last instant. -/
theorem min_le_deadline (now : Instant) (wait : Duration) :
    min (now.add wait).nanos last.nanos ≤ (now.deadline wait).nanos := by
  unfold deadline
  split
  · exact Int.min_le_right ..
  · split
    · exact Int.min_le_right ..
    · exact Int.min_le_left ..

/-- A wait that is too long to be added leads past the last instant from wherever it starts, so a
deadline is the sum, or the last instant if that comes first. -/
theorem deadline_eq_min (h : first.nanos ≤ now.nanos) :
    (now.deadline wait).nanos = min (now.add wait).nanos last.nanos := by
  have hspan := last_le_first_add_longestWait
  unfold deadline
  split
  · rename_i hlong
    rw [nanos_add]
    omega
  · split <;> omega

end Instant

/-! ## Steps that can fail -/

/-- A way to add waits to instants in two steps, either of which can fail. -/
structure Calendar where
  /-- What can be added to an instant. -/
  Span : Type
  /-- The span of a wait. -/
  span? : Duration → Option Span
  /-- The instant that a span leads to. -/
  add? : Instant → Span → Option Instant

namespace Calendar

/-- A step fails only at its limit, the longest wait or the last instant, and what it gives is exact
to the nanosecond. -/
structure Exact (c : Calendar) : Prop where
  span?_eq_none_iff : ∀ wait, c.span? wait = none ↔ Instant.longestWait < wait.nanos
  add?_eq_none_iff : ∀ {now : Instant} {wait span}, now.Representable →
    c.span? wait = some span → (c.add? now span = none ↔ ¬(now.add wait).Representable)
  eq_of_add? : ∀ {now : Instant} {wait span t}, now.Representable →
    c.span? wait = some span → c.add? now span = some t → t = now.add wait

/-- The instant that the two steps come to, and the last one if a step fails. -/
def deadline (c : Calendar) (now : Instant) (wait : Duration) : Instant :=
  ((c.span? wait).bind (c.add? now)).getD Instant.last

variable {c : Calendar} {now : Instant} {wait : Duration}

/-- **Exact calendars.** Deadlines do not depend on how instants and spans are represented. -/
theorem deadline_eq (exact : c.Exact) (h : now.Representable) :
    c.deadline now wait = now.deadline wait := by
  unfold deadline Instant.deadline
  cases hspan : c.span? wait with
  | none =>
    rw [if_pos ((exact.span?_eq_none_iff wait).1 hspan)]
    rfl
  | some span =>
    have hshort : ¬Instant.longestWait < wait.nanos := by
      rw [← exact.span?_eq_none_iff, hspan]
      exact Option.some_ne_none span
    have hadd := exact.add?_eq_none_iff h hspan
    rw [Instant.representable_add_iff h, Int.not_le] at hadd
    rw [if_neg hshort, Option.bind_some]
    cases hsum : c.add? now span with
    | none =>
      rw [if_pos (hadd.1 hsum)]
      rfl
    | some t =>
      have hearly : ¬Instant.last.nanos < (now.add wait).nanos := by
        rw [← hadd, hsum]
        exact Option.some_ne_none t
      rw [if_neg hearly]
      exact exact.eq_of_add? h hspan hsum

/-- The calendar that counts nanoseconds. -/
def ofNanos : Calendar where
  Span := Nat
  span? wait := if Instant.longestWait < wait.nanos then none else some wait.nanos
  add? now span :=
    let t : Instant := ⟨now.nanos + span⟩
    if t.Representable then some t else none

/-- The span of a wait is the wait. -/
theorem eq_of_span?_ofNanos {span : Nat} (h : ofNanos.span? wait = some span) :
    span = wait.nanos := by
  change (if Instant.longestWait < wait.nanos then none else some wait.nanos) = some span at h
  split at h
  · cases h
  · exact (Option.some.inj h).symm

theorem exact_ofNanos : ofNanos.Exact where
  span?_eq_none_iff wait := by
    simp [ofNanos]
  add?_eq_none_iff {now wait span} _ hspan := by
    cases eq_of_span?_ofNanos hspan
    simp [ofNanos, Instant.add]
  eq_of_add? {now wait span t} _ hspan hsum := by
    cases eq_of_span?_ofNanos hspan
    change (if (now.add wait).Representable then some (now.add wait) else none) = some t at hsum
    split at hsum
    · exact (Option.some.inj hsum).symm
    · cases hsum

end Calendar

/-! ## Deadlines in exact arithmetic -/

namespace Instant

/-- **Deadlines.** Whatever the clock reads and however long the wait, on every calendar that is
exact, the deadline is the exact sum or the last instant, whichever is first. So there always is such
an instant, it is not before the reading, and it is not earlier for a longer wait or for a later
reading. -/
theorem deadline_saturates {c : Calendar} (exact : c.Exact) {now : Instant}
    (h : now.Representable) (wait : Duration) :
    c.deadline now wait = now.deadline wait ∧
    (c.deadline now wait).nanos = min (now.nanos + wait.nanos) last.nanos ∧
    (c.deadline now wait).Representable ∧
    now.nanos ≤ (c.deadline now wait).nanos ∧
    (∀ longer : Duration, wait.nanos ≤ longer.nanos →
      (c.deadline now wait).nanos ≤ (c.deadline now longer).nanos) ∧
    ∀ later : Instant, later.Representable → now.nanos ≤ later.nanos →
      (c.deadline now wait).nanos ≤ (c.deadline later wait).nanos := by
  have hsum : ∀ {t : Instant} (d : Duration), t.Representable →
      (c.deadline t d).nanos = min (t.nanos + d.nanos) last.nanos := by
    intro t d ht
    rw [Calendar.deadline_eq exact ht, deadline_eq_min ht.1, nanos_add]
  have hfirst := h.1
  have hlast := h.2
  refine ⟨Calendar.deadline_eq exact h, hsum wait h, ?_, ?_, fun longer hwait => ?_,
    fun later hlater hnow => ?_⟩
  · unfold Representable
    rw [hsum wait h]
    omega
  · rw [hsum wait h]
    omega
  · rw [hsum wait h, hsum longer h]
    omega
  · rw [hsum wait h, hsum wait hlater]
    omega

/-- From the first instant, a wait that is too long for a span leads to the last one. -/
theorem deadline_saturates_from_first :
    Calendar.ofNanos.Exact ∧ first.Representable ∧ longestWait < Duration.longest.nanos ∧
    (Calendar.ofNanos.deadline first Duration.longest).nanos
      = min (first.nanos + Duration.longest.nanos) last.nanos ∧
    Calendar.ofNanos.deadline first Duration.longest = last := by
  have h : first.Representable := by decide
  obtain ⟨heq, hmin, -⟩ := deadline_saturates Calendar.exact_ofNanos h Duration.longest
  exact ⟨Calendar.exact_ofNanos, h, by decide, hmin, heq.trans (by decide)⟩

end Instant
end Chronicle
