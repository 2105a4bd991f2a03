import Chronicle.Proofs.Log.Behind
import Chronicle.Proofs.Loop.Fleet
import Chronicle.Proofs.Watermarks
/-!
# Where a view stands

The rows of a view ought to be the fold of what its watermark covers. Since a fold and its
recording are two calls, they can also be one event ahead.

* `ViewKind.mark`, `ViewKind.pending`: the watermark, and whether the view is to be built again;
* `ViewKind.UpTo`: the rows are the fold, from the empty view, of the events up to a position;
* `ViewKind.InStep`: the rows are up to the watermark, or up to the next event behind it;
* **`ViewKind.InStep.fold_next`**: either way, the fold of that event brings them up to it.
-/

namespace Chronicle

namespace ViewKind

variable (v : ViewKind)

/-- The watermark. -/
def mark (s : Shared Stores) : Int := s.marks.current v.view

/-- The view is to be built again. -/
def pending (s : Shared Stores) : Prop := s.marks.resetRequested v.view = true

/-- The rows are the fold, from the empty view, of the events up to `w`. -/
def UpTo (s : Shared Stores) (w : Int) : Prop :=
  v.projection.rowsAfter (s.log.covered v.query w) = .ok (v.rows s.views)

/-- The rows are up to the watermark or up to the next event behind it. -/
def InStep (s : Shared Stores) : Prop :=
  v.UpTo s (v.mark s) ∨
    ∃ e rest, s.log.behind v.query (v.mark s) = e :: rest ∧ v.UpTo s e.position

/-! ## Folds of the handler -/

section handler

variable {v} {cycle delay : Duration}

@[simp] theorem handler_view : (v.handler cycle delay).view = v.view := rfl

@[simp] theorem handler_query : (v.handler cycle delay).query = v.query := rfl

@[simp] theorem rows_clear (s : Stores) :
    v.rows ((v.handler cycle delay).clear s) = Index.empty :=
  v.rows_set _ s

theorem rows_empty (v : ViewKind) : v.rows {} = Index.empty := by
  cases v <;> rfl

theorem handler_fold_of_edit {s₀ : Stores} {e : Event} {edit : Edit v.Key v.Entry}
    (h : v.projection.edit (v.rows s₀) e = .ok edit) :
    ((v.handler cycle delay).fold s₀ e).error = none ∧
      ∀ s, v.rows (((v.handler cycle delay).fold s₀ e).write s) = edit.apply (v.rows s) := by
  unfold handler Projection.handler
  dsimp only
  rw [show v.part.get s₀ = v.rows s₀ from rfl, h]
  exact ⟨rfl, fun s => v.rows_modify (Edit.apply · edit) s⟩

theorem handler_fold_of_error {s₀ : Stores} {e : Event} {err : Error}
    (h : v.projection.edit (v.rows s₀) e = .error err) :
    ((v.handler cycle delay).fold s₀ e).error = some err ∧
      ((v.handler cycle delay).fold s₀ e).write = id := by
  unfold handler Projection.handler
  dsimp only
  rw [show v.part.get s₀ = v.rows s₀ from rfl, h]
  exact ⟨rfl, rfl⟩

/-- A fold decides on its write when it reads. It ends in an error and writes nothing, or it writes
what the event comes to on the rows that were read. -/
theorem handler_fold_cases (s₀ : Stores) (e : Event) :
    (∃ err, ((v.handler cycle delay).fold s₀ e).error = some err ∧
      ((v.handler cycle delay).fold s₀ e).write = id) ∨
    ∃ edit, v.projection.edit (v.rows s₀) e = .ok edit ∧
      ((v.handler cycle delay).fold s₀ e).error = none ∧
      ∀ s, v.rows (((v.handler cycle delay).fold s₀ e).write s) = edit.apply (v.rows s) := by
  cases h : v.projection.edit (v.rows s₀) e with
  | error err => exact .inl ⟨err, handler_fold_of_error h⟩
  | ok edit => exact .inr ⟨edit, rfl, handler_fold_of_edit h⟩

end handler

/-! ## One event further -/

variable {v} {s s' : Shared Stores} {w : Int} {e : Event} {rest : List Event}

theorem UpTo.keyed (h : v.UpTo s w) : (v.rows s.views).Keyed :=
  Projection.keyed_rowsAfter h

/-- A view that is empty is up to position zero. -/
theorem upTo_zero (n : s.log.Numbered) (h : v.rows s.views = Index.empty) : v.UpTo s 0 := by
  unfold UpTo
  rw [n.covered_zero (Int.le_refl 0), h]
  rfl

/-- The fold of the next event brings the rows up to it, also when it was folded before. -/
theorem InStep.fold_next (n : s.log.Numbered) (h : v.InStep s)
    (hb : s.log.behind v.query (v.mark s) = e :: rest) {t : Table v.Key v.Entry}
    (hf : v.projection.fold (v.rows s.views) e = .ok t) :
    v.projection.rowsAfter (s.log.covered v.query e.position) = .ok t := by
  obtain ⟨-, -, hc⟩ := n.next hb
  rcases h with h | ⟨e', rest', hb', h⟩
  · rw [hc, Projection.rowsAfter_concat h, hf]
  · cases hb.symm.trans hb'
    -- the rows are up to `e` already, so they are the fold of `e` and a second one changes nothing
    have hagain : v.projection.fold (v.rows s.views) e = .ok (v.rows s.views) := by
      unfold UpTo at h
      rw [hc] at h
      obtain ⟨t₀, h₀, hfold⟩ := Projection.rowsAfter_concat_ok h
      exact v.lawful.refold (Projection.keyed_rowsAfter h₀) hfold
    rw [h, ← hagain, hf]

/-- A view that is in step stays so while the log grows. -/
theorem UpTo.grow (h : v.UpTo s w) (n : s'.log.Numbered) (hlog : s.log.events <+: s'.log.events)
    (hw : w ≤ s.log.events.length) (hv : s'.views = s.views) : v.UpTo s' w := by
  unfold UpTo
  rw [n.covered_eq hlog hw, hv]
  exact h

theorem InStep.grow (h : v.InStep s) (n₀ : s.log.Numbered) (n : s'.log.Numbered)
    (hlog : s.log.events <+: s'.log.events) (hw : v.mark s ≤ s.log.events.length)
    (hm : s'.marks = s.marks) (hv : s'.views = s.views) : v.InStep s' := by
  have hmark : v.mark s' = v.mark s := by
    unfold mark
    rw [hm]
  rcases h with h | ⟨e, rest, hb, h⟩
  · refine .inl ?_
    rw [hmark]
    exact h.grow n hlog hw hv
  · obtain ⟨more, hmore⟩ := EventLog.behind_prefix (q := v.query) (w := v.mark s) hlog
    refine .inr ⟨e, rest ++ more, ?_, ?_⟩
    · rw [hmark, ← hmore, hb, List.cons_append]
    · have he : e ∈ s.log.behind v.query (v.mark s) := hb ▸ List.mem_cons_self
      exact h.grow n hlog (n₀.position_le (EventLog.mem_behind_iff.1 he).1) hv

end ViewKind
end Chronicle
