import Chronicle.Index.Lemmas
import Chronicle.View.Table
/-!
# Folding an event again

Every row carries the sequence it has reached and a table never goes back behind it, so the event
that was folded last can be folded again and nothing changes. This needs little of a projection:
the rows it writes keep their key and take over the sequence of the event.

* `Table.Keyed`: every row stands under its own key;
* `Projection.Lawful`: what is asked of a projection;
* `Projection.rowsAfter`: the rows that a list of events comes to;
* **`Projection.Lawful.refold`**: the second fold of an event changes nothing.
-/

namespace Chronicle

/-! ## Rows under their keys -/

namespace Table

variable {κ ρ : Type} [SortKey κ] [Row ρ κ]

/-- Every row stands under its own key. -/
def Keyed (t : Table κ ρ) : Prop :=
  ∀ ⦃k row⦄, t.get? k = some row → Row.key row = k

theorem keyed_empty : Table.Keyed (Index.empty : Table κ ρ) := by
  intro k row h
  cases h

theorem Keyed.insert {t : Table κ ρ} (h : t.Keyed) (row : ρ) :
    Keyed (t.insert (Row.key row) row) := by
  intro k r hr
  by_cases hk : k = Row.key row
  · subst hk
    rw [Index.get?_insert_self] at hr
    cases hr
    rfl
  · rw [Index.get?_insert_of_ne hk] at hr
    exact h hr

/-- A row that is not ahead of the table leaves it as it is; one that is ahead goes in. -/
theorem put_cases (t : Table κ ρ) (row : ρ) :
    (∃ held, t.get? (Row.key row) = some held ∧ Row.sequence row ≤ Row.sequence held ∧
      t.put row = t) ∨
    ((∀ held, t.get? (Row.key row) = some held → Row.sequence held < Row.sequence row) ∧
      t.put row = t.insert (Row.key row) row) := by
  unfold put
  cases hg : t.get? (Row.key row) with
  | none =>
    refine .inr ⟨fun held h => ?_, rfl⟩
    cases h
  | some held =>
    by_cases hs : Row.sequence row ≤ Row.sequence held
    · exact .inl ⟨held, rfl, hs, if_pos hs⟩
    · refine .inr ⟨fun r hr => ?_, if_neg hs⟩
      cases hr
      omega

/-- A put leaves the other keys as they are. -/
theorem get?_put_of_ne (t : Table κ ρ) {row : ρ} {key : κ} (h : key ≠ Row.key row) :
    (t.put row).get? key = t.get? key := by
  rcases put_cases t row with ⟨-, -, -, hp⟩ | ⟨-, hp⟩
  · rw [hp]
  · rw [hp, Index.get?_insert_of_ne h]

theorem Keyed.put {t : Table κ ρ} (h : t.Keyed) (row : ρ) : Keyed (t.put row) := by
  rcases put_cases t row with ⟨held, -, -, hp⟩ | ⟨-, hp⟩
  · rwa [hp]
  · rw [hp]
    exact h.insert row

theorem Keyed.drop {t : Table κ ρ} (h : t.Keyed) (key : κ) : Keyed (t.drop key) := by
  intro k row hr
  by_cases hk : k = key
  · subst hk
    rw [Table.drop, Index.get?_erase_self] at hr
    cases hr
  · rw [Table.drop, Index.get?_erase_of_ne hk] at hr
    exact h hr

/-- A table has reached a row that was put into it. -/
theorem exists_get?_put (t : Table κ ρ) (row : ρ) :
    ∃ r, (t.put row).get? (Row.key row) = some r ∧ Row.sequence row ≤ Row.sequence r := by
  rcases put_cases t row with ⟨held, hg, hs, hp⟩ | ⟨-, hp⟩
  · exact ⟨held, by rw [hp, hg], hs⟩
  · exact ⟨row, by rw [hp, Index.get?_insert_self], Int.le_refl _⟩

/-- A row that the table has reached does not go in. -/
theorem put_eq_self {t : Table κ ρ} {row held : ρ} (h : t.get? (Row.key row) = some held)
    (hs : Row.sequence row ≤ Row.sequence held) : t.put row = t := by
  unfold put
  rw [h]
  exact if_pos hs

omit [Row ρ κ] in
theorem drop_drop (t : Table κ ρ) (key : κ) : (t.drop key).drop key = t.drop key := by
  refine Index.eq_of_get?_eq fun k => ?_
  by_cases hk : k = key
  · subst hk
    rw [drop, drop, Index.get?_erase_self, Index.get?_erase_self]
  · rw [drop, Index.get?_erase_of_ne hk]

end Table

/-! ## Lawful projections -/

/-- A computation that comes to something has come to something on the way. -/
theorem exists_of_bind_eq_ok {ε α β : Type} {x : Except ε α} {f : α → Except ε β} {b : β}
    (h : x >>= f = .ok b) : ∃ a, x = .ok a ∧ f a = .ok b := by
  cases x with
  | error err => cases h
  | ok a => exact ⟨a, rfl, h⟩

namespace Projection

variable {κ ρ : Type} [SortKey κ] [Row ρ κ]

/-- What an event puts into a row keeps its key and takes over the sequence of the event. -/
structure Lawful (p : Projection κ ρ) : Prop where
  put : ∀ {e row}, p.instruction e = .ok (.put row) → Row.sequence row = e.sequence
  revise : ∀ {e key missing s change}, p.instruction e = .ok (.revise key missing s change) →
    s = e.sequence ∧
      ∀ row, Row.key (change row) = Row.key row ∧ Row.sequence (change row) = e.sequence

/-- The rows that events, in order, make of an empty view. -/
def rowsAfter (p : Projection κ ρ) (es : List Event) : Except Error (Table κ ρ) :=
  es.foldlM p.fold Index.empty

variable {p : Projection κ ρ} {t t' : Table κ ρ} {e : Event} {es : List Event}

/-- The rows behind one more event are its fold. -/
theorem rowsAfter_concat (h : p.rowsAfter es = .ok t) : p.rowsAfter (es ++ [e]) = p.fold t e := by
  unfold rowsAfter at h ⊢
  rw [List.foldlM_append, h]
  change (p.fold t e >>= fun t => pure t) = _
  exact bind_pure _

theorem rowsAfter_concat_ok (h : p.rowsAfter (es ++ [e]) = .ok t') :
    ∃ t, p.rowsAfter es = .ok t ∧ p.fold t e = .ok t' := by
  unfold rowsAfter at h
  rw [List.foldlM_append] at h
  obtain ⟨t, ht, h⟩ := exists_of_bind_eq_ok h
  exact ⟨t, ht, by rwa [← bind_pure (p.fold t e)]⟩

/-- A fold that succeeds is a write that is made at once. -/
theorem fold_eq_ok (h : p.fold t e = .ok t') :
    ∃ edit, p.edit t e = .ok edit ∧ edit.apply t = t' := by
  unfold fold at h
  cases hedit : p.edit t e with
  | error err => simp [hedit, Except.map] at h
  | ok edit =>
    rw [hedit] at h
    exact ⟨edit, rfl, Except.ok.inj h⟩

theorem fold_of_edit {edit : Edit κ ρ} (h : p.edit t e = .ok edit) :
    p.fold t e = .ok (edit.apply t) := by
  rw [fold, h]
  rfl

/-- A fold that fails finds nothing to write. -/
theorem fold_eq_error {err : Error} (h : p.fold t e = .error err) : p.edit t e = .error err := by
  unfold fold at h
  cases hedit : p.edit t e with
  | error err' =>
    rw [hedit] at h
    cases h
    rfl
  | ok edit => simp [hedit, Except.map] at h

/-- **Folds.** A fold puts a row in, or revises a row that is there, or finds that row ahead of the
event, or drops a row. -/
theorem fold_cases (h : p.fold t e = .ok t') :
    (∃ row, p.instruction e = .ok (.put row) ∧ t' = t.put row) ∨
    (∃ key missing s change row, p.instruction e = .ok (.revise key missing s change) ∧
      t.get? key = some row ∧
      (s ≤ Row.sequence row ∧ t' = t ∨ Row.sequence row < s ∧ t' = t.put (change row))) ∨
    (∃ key, p.instruction e = .ok (.drop key) ∧ t' = t.drop key) := by
  unfold fold edit at h
  cases hi : p.instruction e with
  | error err => simp [hi, Except.map] at h
  | ok i =>
    rw [hi] at h
    cases i with
    | put row =>
      cases h
      exact .inl ⟨row, rfl, rfl⟩
    | drop key =>
      cases h
      exact .inr (.inr ⟨key, rfl, rfl⟩)
    | revise key missing s change =>
      refine .inr (.inl ⟨key, missing, s, change, ?_⟩)
      simp only [Instruction.edit] at h
      cases hg : t.get? key with
      | none => simp [hg, Except.map] at h
      | some row =>
        rw [hg] at h
        by_cases hs : s ≤ Row.sequence row
        · simp only [hs, if_true] at h
          cases h
          exact ⟨row, rfl, rfl, .inl ⟨hs, rfl⟩⟩
        · simp only [hs, if_false] at h
          cases h
          exact ⟨row, rfl, rfl, .inr ⟨by omega, rfl⟩⟩

/-- Folds keep rows under their keys. -/
theorem keyed_fold (h : p.fold t e = .ok t') (hk : t.Keyed) : t'.Keyed := by
  rcases fold_cases h with ⟨row, -, rfl⟩ | ⟨_, _, _, change, row, -, -, ⟨-, rfl⟩ | ⟨-, rfl⟩⟩ |
    ⟨key, -, rfl⟩
  · exact hk.put row
  · exact hk
  · exact hk.put (change row)
  · exact hk.drop key

theorem keyed_foldlM (h : es.foldlM p.fold t = .ok t') (hk : t.Keyed) : t'.Keyed := by
  induction es generalizing t with
  | nil =>
    cases h
    exact hk
  | cons e es ih =>
    rw [List.foldlM_cons] at h
    obtain ⟨t₁, hf, h⟩ := exists_of_bind_eq_ok h
    exact ih h (keyed_fold hf hk)

/-- The rows that events come to stand under their keys. -/
theorem keyed_rowsAfter (h : p.rowsAfter es = .ok t) : t.Keyed :=
  keyed_foldlM h Table.keyed_empty

/-- **Folding again.** A second fold of the same event changes nothing. -/
theorem Lawful.refold (hp : p.Lawful) (hk : t.Keyed) (h : p.fold t e = .ok t') :
    p.fold t' e = .ok t' := by
  rcases fold_cases h with ⟨row, hi, rfl⟩ | ⟨key, missing, s, change, row, hi, hg, hr⟩ |
    ⟨key, hi, rfl⟩
  · obtain ⟨r, hr, hs⟩ := Table.exists_get?_put t row
    simp only [fold, edit, hi, Instruction.edit, Except.map, Edit.apply]
    rw [Table.put_eq_self hr hs]
  · -- in either case the row of `key` has now reached the event
    obtain ⟨rfl, hc⟩ := hp.revise hi
    have hreached : ∃ r, t'.get? key = some r ∧ e.sequence ≤ Row.sequence r := by
      rcases hr with ⟨hs, rfl⟩ | ⟨-, rfl⟩
      · exact ⟨row, hg, hs⟩
      · have hput := Table.exists_get?_put t (change row)
        rwa [(hc row).1, (hc row).2, hk hg] at hput
    obtain ⟨r, hr, hs⟩ := hreached
    simp only [fold, edit, hi, Instruction.edit, Except.map, hr, hs, if_true, Edit.apply]
  · simp only [fold, edit, hi, Instruction.edit, Except.map, Edit.apply]
    rw [Table.drop_drop]

end Projection
end Chronicle
