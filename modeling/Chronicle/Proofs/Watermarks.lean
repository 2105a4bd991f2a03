import Chronicle.Index.Lemmas
import Chronicle.Watermark
/-!
# Laws of watermarks

What each operation on the watermarks does to the position of a view and to the request to build it
again. An advance leaves requests alone, a request leaves positions alone, and a drop takes both.

* `WatermarkTable.current_advance`, `WatermarkTable.resetRequested_advance`;
* `WatermarkTable.current_requestReset`, `WatermarkTable.resetRequested_requestReset`;
* `WatermarkTable.current_drop`, `WatermarkTable.resetRequested_drop`.
-/

namespace Chronicle.WatermarkTable

variable (t : WatermarkTable) (now : Instant) (view : String) (position : Int)

/-- An advance moves a view up, and never down. -/
@[simp] theorem current_advance :
    (t.advance now view position).current view = max (t.current view) position := by
  unfold current advance getOrStart
  rw [Index.get?_insert_self]
  cases t.get? view with
  | none =>
    by_cases h : 0 < position
    · simp only [Option.getD_none, h, if_true]
      omega
    · simp only [Option.getD_none, h, if_false]
      omega
  | some w =>
    by_cases h : w.position < position
    · simp only [Option.getD_some, h, if_true]
      omega
    · simp only [Option.getD_some, h, if_false]
      omega

/-- An advance leaves a request as it is. -/
@[simp] theorem resetRequested_advance :
    (t.advance now view position).resetRequested view = t.resetRequested view := by
  unfold resetRequested advance getOrStart
  rw [Index.get?_insert_self]
  cases t.get? view with
  | none =>
    simp only [Option.getD_none]
    split <;> rfl
  | some w =>
    simp only [Option.getD_some]
    split <;> rfl

@[simp] theorem current_drop : (t.drop view).current view = 0 := by
  unfold current drop
  rw [Index.get?_erase_self]

@[simp] theorem resetRequested_drop : (t.drop view).resetRequested view = false := by
  unfold resetRequested drop
  rw [Index.get?_erase_self]

/-- A request leaves every position as it is. -/
@[simp] theorem current_requestReset (view' : String) :
    (t.requestReset now view').current view = t.current view := by
  unfold current requestReset getOrStart
  by_cases h : view = view'
  · subst h
    rw [Index.get?_insert_self]
    cases t.get? view <;> rfl
  · rw [Index.get?_insert_of_ne h]

/-- A request is kept until a drop, and concerns its view only. -/
@[simp] theorem resetRequested_requestReset (view' : String) :
    (t.requestReset now view').resetRequested view
      = (decide (view = view') || t.resetRequested view) := by
  unfold resetRequested requestReset getOrStart
  by_cases h : view = view'
  · subst h
    rw [Index.get?_insert_self]
    simp
  · rw [Index.get?_insert_of_ne h]
    simp [h]

end Chronicle.WatermarkTable
