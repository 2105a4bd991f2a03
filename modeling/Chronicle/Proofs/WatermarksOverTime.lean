import Mathlib.Data.List.DropRight
import Mathlib.Data.List.Induction
import Mathlib.Order.Bounds.Basic
import Chronicle.Proofs.Log.Numbering
import Chronicle.Proofs.Watermarks
/-!
# Watermarks over time

Writes to the watermarks come one after the other, to any views and at whatever the clock reads. What
is kept of a view is told by the writes to this view since it was last dropped: the greatest of their
positions, whether one of them is a request, and when the position last moved.

* `MarkWrite`, `WatermarkTable.after`: writes one after the other, on a table without watermarks;
* `WatermarkTable.since`: the writes that matter;
* `MarkWrite.Raises`, `MarkWrite.Dates`: the advances that move a view up, and the last of them;
* `Watermark.Tells`, **`WatermarkTable.told_after`**: what is kept of a view;
* **`WatermarkTable.watermarks_over_time`**: what the table answers and lists.
-/

namespace Chronicle

/-! ## Writes -/

/-- A write to the watermarks, with what the clock reads at it. -/
inductive MarkWrite where
  | advance (now : Instant) (view : String) (position : Int)
  | drop (view : String)
  | requestReset (now : Instant) (view : String)

namespace MarkWrite

/-- The view that is written to. -/
def view : MarkWrite → String
  | advance _ view _ => view
  | drop view => view
  | requestReset _ view => view

def isDrop : MarkWrite → Bool
  | drop _ => true
  | _ => false

def isRequest : MarkWrite → Bool
  | requestReset _ _ => true
  | _ => false

/-- The position of an advance. -/
def position? : MarkWrite → Option Int
  | advance _ _ position => some position
  | _ => none

/-- What the clock reads. A drop does not look. -/
def now? : MarkWrite → Option Instant
  | advance now _ _ => some now
  | drop _ => none
  | requestReset now _ => some now

/-- Zero, and the positions that were written. -/
def reached (writes : List MarkWrite) : Set Int :=
  insert 0 {p | ∃ w ∈ writes, w.position? = some p}

/-- The write moves a view up that has had the writes `before`: it is an advance to a position beyond
zero and beyond every position before it. -/
def Raises (before : List MarkWrite) (w : MarkWrite) : Prop :=
  ∃ p, w.position? = some p ∧ ∀ q ∈ reached before, q < p

/-- The clock read `time` at the last of the writes that moved the view up, or at the first write if
none did. -/
def Dates (writes : List MarkWrite) (time : Instant) : Prop :=
  ∃ before w behind, writes = before ++ w :: behind ∧ w.now? = some time ∧
    (before = [] ∨ Raises before w) ∧
    ∀ between x rest, behind = between ++ x :: rest → ¬Raises (before ++ w :: between) x

variable {writes : List MarkWrite} {w : MarkWrite} {time : Instant}

theorem reached_nil : reached [] = {0} := by
  simp [reached]

theorem reached_concat_advance (now : Instant) (view : String) (position : Int) :
    reached (writes ++ [.advance now view position]) = insert position (reached writes) := by
  ext p
  simp only [reached, Set.mem_insert_iff, Set.mem_ofPred_eq, List.mem_append, List.mem_singleton,
    or_and_right, exists_or, exists_eq_left, position?, Option.some.injEq]
  rw [or_comm (a := p = position), or_assoc, eq_comm (a := position)]

theorem reached_concat_of_none (h : w.position? = none) :
    reached (writes ++ [w]) = reached writes := by
  ext p
  simp only [reached, Set.mem_insert_iff, Set.mem_ofPred_eq, List.mem_append, List.mem_singleton,
    or_and_right, exists_or, exists_eq_left, h, reduceCtorEq, or_false]

/-- A write that comes first, or moves the view up, is the one to look at. -/
theorem dates_concat_self (first : writes = [] ∨ Raises writes w) (now : w.now? = some time) :
    Dates (writes ++ [w]) time :=
  ⟨writes, w, [], rfl, now, first, fun _ _ _ hsplit => by simp at hsplit⟩

/-- A write that does not move the view up counts only if it comes first. -/
theorem dates_concat_of_stays {now : Instant}
    (h : writes = [] ∧ time = now ∨ Dates writes time) (hnow : w.now? = some now)
    (stays : ¬Raises writes w) : Dates (writes ++ [w]) time := by
  rcases h with ⟨hnil, rfl⟩ | ⟨before, x, behind, rfl, htime, hfirst, hlast⟩
  · exact dates_concat_self (.inl hnil) hnow
  · refine ⟨before, x, behind ++ [w], by simp, htime, hfirst, fun between y rest hsplit => ?_⟩
    rcases split_of_concat hsplit with ⟨rfl, rfl, -⟩ | ⟨rest', -, hbehind⟩
    · exact stays
    · exact hlast between y rest' hbehind

end MarkWrite

/-! ## What writes tell of a view -/

/-- What the writes to a view since it was last dropped tell of its watermark. -/
structure Watermark.Tells (m : Watermark) (writes : List MarkWrite) : Prop where
  position : IsGreatest (MarkWrite.reached writes) m.position
  resetRequested : m.resetRequested = true ↔ ∃ w ∈ writes, w.isRequest = true
  movedAt : MarkWrite.Dates writes m.movedAt

namespace WatermarkTable

/-- The table behind a write. -/
def write (t : WatermarkTable) : MarkWrite → WatermarkTable
  | .advance now view position => t.advance now view position
  | .drop view => t.drop view
  | .requestReset now view => t.requestReset now view

/-- The table behind writes, one after the other, on a table without watermarks. -/
def after (ws : List MarkWrite) : WatermarkTable :=
  ws.foldl write Index.empty

/-- The writes to a view since it was last dropped. -/
def since (ws : List MarkWrite) (view : String) : List MarkWrite :=
  (ws.filter fun w => w.view = view).rtakeWhile fun w => !w.isDrop

/-- What is kept of a view is what the writes tell, and nothing if there are none. -/
def Told (writes : List MarkWrite) : Option Watermark → Prop
  | none => writes = []
  | some m => m.Tells writes

variable {t : WatermarkTable} {ws writes : List MarkWrite} {w : MarkWrite} {view : String}
  {now : Instant}

theorem after_concat (ws : List MarkWrite) (w : MarkWrite) :
    after (ws ++ [w]) = (after ws).write w := by
  unfold after
  rw [List.foldl_append]
  rfl

theorem since_concat_self (ws : List MarkWrite) (w : MarkWrite) :
    since (ws ++ [w]) w.view = if w.isDrop then [] else since ws w.view ++ [w] := by
  unfold since
  rw [List.filter_append, List.filter_cons_of_pos (by simp), List.filter_nil,
    List.rtakeWhile_concat]
  cases w.isDrop <;> rfl

theorem since_concat_of_ne (h : w.view ≠ view) : since (ws ++ [w]) view = since ws view := by
  unfold since
  rw [List.filter_append, List.filter_cons_of_neg (by simpa using h), List.filter_nil,
    List.append_nil]

/-- A write leaves other views alone. -/
theorem get?_write_of_ne (t : WatermarkTable) (h : w.view ≠ view) :
    (t.write w).get? view = t.get? view := by
  cases w with
  | advance now v position => exact Index.get?_insert_of_ne (Ne.symm h)
  | drop v => exact Index.get?_erase_of_ne (Ne.symm h)
  | requestReset now v => exact Index.get?_insert_of_ne (Ne.symm h)

/-- What a write finds of a view. Where it finds nothing, it starts at zero and at its own time. -/
theorem Told.getOrStart (h : Told writes (t.get? view)) (now : Instant) :
    IsGreatest (MarkWrite.reached writes) (t.getOrStart now view).position ∧
    ((t.getOrStart now view).resetRequested = true ↔ ∃ w ∈ writes, w.isRequest = true) ∧
    (writes = [] ∧ (t.getOrStart now view).movedAt = now ∨
      MarkWrite.Dates writes (t.getOrStart now view).movedAt) := by
  unfold WatermarkTable.getOrStart
  cases hget : t.get? view with
  | none =>
    rw [hget] at h
    change writes = [] at h
    subst h
    refine ⟨?_, by simp, .inl ⟨rfl, rfl⟩⟩
    rw [MarkWrite.reached_nil]
    exact isGreatest_singleton
  | some m =>
    rw [hget] at h
    exact ⟨h.position, h.resetRequested, .inr h.movedAt⟩

/-- An advance moves a view up if it is to a position beyond all before it. -/
theorem Told.advance (h : Told writes (t.get? view)) (now : Instant) (position : Int) :
    Told (writes ++ [.advance now view position])
      ((t.advance now view position).get? view) := by
  obtain ⟨hposition, hrequested, hmoved⟩ := h.getOrStart now
  unfold WatermarkTable.advance
  rw [Index.get?_insert_self]
  generalize t.getOrStart now view = m at hposition hrequested hmoved ⊢
  have hraises : MarkWrite.Raises writes (.advance now view position) ↔ m.position < position := by
    rw [hposition.lt_iff]
    exact ⟨fun ⟨p, hp, hall⟩ => Option.some.inj hp ▸ hall, fun hall => ⟨position, rfl, hall⟩⟩
  have hgreatest := hposition.insert position
  rw [← MarkWrite.reached_concat_advance now view] at hgreatest
  have hrequests : (∃ w ∈ writes ++ [.advance now view position], w.isRequest = true) ↔
      ∃ w ∈ writes, w.isRequest = true := by
    simp [MarkWrite.isRequest, or_and_right, exists_or]
  split
  · rename_i hlt
    rw [max_eq_left hlt.le] at hgreatest
    exact ⟨hgreatest, hrequested.trans hrequests.symm,
      MarkWrite.dates_concat_self (.inr (hraises.2 hlt)) rfl⟩
  · rename_i hle
    rw [max_eq_right (not_lt.1 hle)] at hgreatest
    exact ⟨hgreatest, hrequested.trans hrequests.symm,
      MarkWrite.dates_concat_of_stays hmoved rfl (mt hraises.1 hle)⟩

/-- A request leaves the position as it is, and the time at which it moved. -/
theorem Told.requestReset (h : Told writes (t.get? view)) (now : Instant) :
    Told (writes ++ [.requestReset now view]) ((t.requestReset now view).get? view) := by
  obtain ⟨hposition, -, hmoved⟩ := h.getOrStart now
  unfold WatermarkTable.requestReset
  rw [Index.get?_insert_self]
  have hstays : ¬MarkWrite.Raises writes (.requestReset now view) := by
    rintro ⟨p, hp, -⟩
    cases hp
  refine ⟨?_, ?_, MarkWrite.dates_concat_of_stays hmoved rfl hstays⟩
  · rw [MarkWrite.reached_concat_of_none rfl]
    exact hposition
  · exact ⟨fun _ => ⟨.requestReset now view, by simp, rfl⟩, fun _ => rfl⟩

/-- **What is kept of a view** is what the writes to it tell. -/
theorem told_after (ws : List MarkWrite) (view : String) :
    Told (since ws view) ((after ws).get? view) := by
  induction ws using List.reverseRecOn with
  | nil => exact rfl
  | append_singleton ws w ih =>
    rw [after_concat]
    by_cases hview : w.view = view
    · subst hview
      rw [since_concat_self]
      cases w with
      | advance now v position => exact ih.advance now position
      | drop v =>
        change Told [] (((after ws).erase v).get? v)
        rw [Index.get?_erase_self]
        exact rfl
      | requestReset now v => exact ih.requestReset now
    · rw [since_concat_of_ne hview, get?_write_of_ne _ hview]
      exact ih

/-! ## What the table answers -/

theorem tells_of_get? {m : Watermark} (h : (after ws).get? view = some m) :
    m.Tells (since ws view) := by
  have htold := told_after ws view
  rw [h] at htold
  exact htold

/-- Nothing is kept of a view that was not written to. -/
theorem get?_eq_none_iff (ws : List MarkWrite) (view : String) :
    (after ws).get? view = none ↔ since ws view = [] := by
  cases hget : (after ws).get? view with
  | none =>
    have htold := told_after ws view
    rw [hget] at htold
    exact ⟨fun _ => htold, fun _ => rfl⟩
  | some m =>
    obtain ⟨before, w, behind, hsplit, -⟩ := (tells_of_get? hget).movedAt
    simp [hsplit]

theorem isGreatest_current (ws : List MarkWrite) (view : String) :
    IsGreatest (MarkWrite.reached (since ws view)) ((after ws).current view) := by
  unfold current
  cases hget : (after ws).get? view with
  | none =>
    rw [(get?_eq_none_iff ws view).1 hget, MarkWrite.reached_nil]
    exact isGreatest_singleton
  | some m => exact (tells_of_get? hget).position

theorem resetRequested_iff (ws : List MarkWrite) (view : String) :
    (after ws).resetRequested view = true ↔ ∃ w ∈ since ws view, w.isRequest = true := by
  unfold resetRequested
  cases hget : (after ws).get? view with
  | none => simp [(get?_eq_none_iff ws view).1 hget]
  | some m => exact (tells_of_get? hget).resetRequested

/-- Writes that do not drop a view leave it the writes that it has had. -/
theorem since_prefix_of_not_drop {more : List MarkWrite}
    (h : ∀ w ∈ more, w.isDrop = true → w.view ≠ view) :
    since ws view <+: since (ws ++ more) view := by
  induction more using List.reverseRecOn with
  | nil => simp
  | append_singleton more w ih =>
    have hprefix := ih fun x hx => h x (List.mem_append_left _ hx)
    rw [← List.append_assoc]
    by_cases hview : w.view = view
    · subst hview
      have hkeeps : w.isDrop = false := by
        by_contra hdrop
        exact h w (by simp) (Bool.not_eq_false _ ▸ hdrop) rfl
      rw [since_concat_self, hkeeps]
      exact hprefix.trans (List.prefix_append ..)
    · rwa [since_concat_of_ne hview]

/-- **Watermarks over time.** Behind any writes, whatever the clock reads at them, the watermark of a
view is the greatest of zero and the positions that were written to it since it was last dropped, and
the view is to be built again exactly if that was asked for since then. So until a view is dropped its
watermark never goes down, in whatever order positions are written, and a request stays. The table
lists, in strictly ascending order, the views that were written to since they were last dropped, each
with these values and with the time at which it last moved up, or of its first write if it has not
moved. A write leaves every other view as it is. -/
theorem watermarks_over_time (ws : List MarkWrite) :
    (∀ view,
      IsGreatest (MarkWrite.reached (since ws view)) ((after ws).current view) ∧
      ((after ws).resetRequested view = true ↔ ∃ w ∈ since ws view, w.isRequest = true)) ∧
    (∀ more view, (∀ w ∈ more, w.isDrop = true → w.view ≠ view) →
      (after ws).current view ≤ (after (ws ++ more)).current view ∧
      ((after ws).resetRequested view = true → (after (ws ++ more)).resetRequested view = true)) ∧
    (after ws).keys.Pairwise (· < ·) ∧
    (∀ view, view ∈ (after ws).keys ↔ since ws view ≠ []) ∧
    (∀ view m, (view, m) ∈ (after ws).entries →
      m.position = (after ws).current view ∧
      m.resetRequested = (after ws).resetRequested view ∧
      MarkWrite.Dates (since ws view) m.movedAt) ∧
    ∀ w view, w.view ≠ view → (after (ws ++ [w])).get? view = (after ws).get? view := by
  refine ⟨fun view => ⟨isGreatest_current ws view, resetRequested_iff ws view⟩,
    fun more view hmore => ?_, ?_, fun view => ?_, fun view m hm => ?_, fun w view hview => ?_⟩
  · have hprefix : since ws view <+: since (ws ++ more) view := since_prefix_of_not_drop hmore
    have hsub := hprefix.subset
    refine ⟨(isGreatest_current ws view).mono (isGreatest_current _ view) ?_, fun hreq => ?_⟩
    · refine Set.insert_subset_insert fun p hp => ?_
      obtain ⟨w, hw, hposition⟩ := hp
      exact ⟨w, hsub hw, hposition⟩
    · obtain ⟨w, hw, hrequest⟩ := (resetRequested_iff ws view).1 hreq
      exact (resetRequested_iff _ view).2 ⟨w, hsub hw, hrequest⟩
  · exact (Index.pairwise_keys _).imp of_decide_eq_true
  · rw [Index.mem_keys_iff, Index.contains, Option.isSome_iff_ne_none, Ne, get?_eq_none_iff]
  · have hget := Index.mem_entries_iff.1 hm
    refine ⟨?_, ?_, (tells_of_get? hget).movedAt⟩
    · unfold current
      rw [hget]
    · unfold resetRequested
      rw [hget]
  · rw [after_concat, get?_write_of_ne _ hview]

end WatermarkTable
end Chronicle
