import Chronicle.Proofs.View.Refold
/-!
# Writes that come late

A write is decided on the rows that were read, and another loop may have gone on before it is made.
As long as no row was dropped, the row that the write is about has reached its event by then, so
the write changes nothing. Dropped rows leave no trace, and a late write puts them back.

* `Instruction.key`, `Projection.Drops`: the key an event is about, and whether it ends its row;
* `Projection.Reached`: the row that an event is about has reached it;
* `Projection.reached_of_mem`: without drops, every event that was folded is reached;
* **`Projection.apply_eq_self`**: a late write changes nothing.
-/

namespace Chronicle

variable {κ ρ : Type} [SortKey κ] [Row ρ κ]

/-- The key that an instruction is about. -/
def Instruction.key : Instruction κ ρ → κ
  | .put row => Row.key row
  | .revise key _ _ _ => key
  | .drop key => key

omit [SortKey κ] in
/-- An instruction about a row that is there comes to a write. -/
theorem Instruction.exists_edit {i : Instruction κ ρ} {find : κ → Option ρ} {row : ρ}
    (h : find i.key = some row) : ∃ edit, i.edit find = .ok edit := by
  cases i with
  | put row => exact ⟨_, rfl⟩
  | drop key => exact ⟨_, rfl⟩
  | revise key missing s change =>
    change find key = some row at h
    simp only [edit, h]
    split <;> exact ⟨_, rfl⟩

namespace Projection

/-- The event ends a row. -/
def Drops (p : Projection κ ρ) (e : Event) : Prop :=
  ∃ key, p.instruction e = .ok (.drop key)

/-- The row that an event is about has reached the event. -/
def Reached (p : Projection κ ρ) (t : Table κ ρ) (e : Event) : Prop :=
  ∀ i, p.instruction e = .ok i → ∃ row, t.get? i.key = some row ∧ e.sequence ≤ Row.sequence row

variable {p : Projection κ ρ} {t t' t₀ : Table κ ρ} {e e' : Event} {es : List Event}

/-- A put never sets a row back. -/
theorem exists_get?_put_of_get? (t : Table κ ρ) (row : ρ) {k : κ} {held : ρ}
    (h : t.get? k = some held) :
    ∃ r, (t.put row).get? k = some r ∧ Row.sequence held ≤ Row.sequence r := by
  rcases Table.put_cases t row with ⟨-, -, -, hp⟩ | ⟨hlt, hp⟩
  · exact ⟨held, by rw [hp, h], Int.le_refl _⟩
  · by_cases hkey : k = Row.key row
    · subst hkey
      have := hlt held h
      exact ⟨row, by rw [hp, Index.get?_insert_self], by omega⟩
    · exact ⟨held, by rw [hp, Index.get?_insert_of_ne hkey, h], Int.le_refl _⟩

/-- A fold that drops nothing never sets a row back. -/
theorem exists_get?_fold (hf : p.fold t e = .ok t') (hd : ¬p.Drops e) {k : κ} {held : ρ}
    (h : t.get? k = some held) :
    ∃ r, t'.get? k = some r ∧ Row.sequence held ≤ Row.sequence r := by
  rcases fold_cases hf with ⟨row, -, rfl⟩ | ⟨_, _, _, change, row, -, -, ⟨-, rfl⟩ | ⟨-, rfl⟩⟩ |
    ⟨key, hi, -⟩
  · exact exists_get?_put_of_get? t row h
  · exact ⟨held, h, Int.le_refl _⟩
  · exact exists_get?_put_of_get? t (change row) h
  · exact absurd ⟨key, hi⟩ hd

/-- Folds that drop nothing never set a row back. -/
theorem exists_get?_foldlM (hf : es.foldlM p.fold t = .ok t') (hd : ∀ e ∈ es, ¬p.Drops e) {k : κ}
    {held : ρ} (h : t.get? k = some held) :
    ∃ r, t'.get? k = some r ∧ Row.sequence held ≤ Row.sequence r := by
  induction es generalizing t held with
  | nil =>
    cases hf
    exact ⟨held, h, Int.le_refl _⟩
  | cons e es ih =>
    rw [List.foldlM_cons] at hf
    obtain ⟨t₁, he, hf⟩ := exists_of_bind_eq_ok hf
    obtain ⟨r₁, h₁, hle₁⟩ := exists_get?_fold he (hd e List.mem_cons_self) h
    obtain ⟨r, hr, hle⟩ := ih hf (fun e' he' => hd e' (List.mem_cons_of_mem _ he')) h₁
    exact ⟨r, hr, Int.le_trans hle₁ hle⟩

/-- A fold reaches its event. -/
theorem Lawful.reached_of_fold (hp : p.Lawful) (hf : p.fold t e = .ok t') (hk : t.Keyed)
    (hd : ¬p.Drops e) : p.Reached t' e := by
  intro i hi
  rcases fold_cases hf with ⟨row, hi', rfl⟩ | ⟨key, missing, s, change, row, hi', hg, hr⟩ |
    ⟨key, hi', -⟩
  · cases hi.symm.trans hi'
    rw [← hp.put hi]
    exact Table.exists_get?_put t row
  · cases hi.symm.trans hi'
    obtain ⟨rfl, hc⟩ := hp.revise hi
    rcases hr with ⟨hs, rfl⟩ | ⟨-, rfl⟩
    · exact ⟨row, hg, hs⟩
    · have hput := Table.exists_get?_put t (change row)
      rwa [(hc row).1, (hc row).2, hk hg] at hput
  · exact absurd ⟨key, hi'⟩ hd

/-- An event that is reached can be folded again. -/
theorem Reached.exists_edit {i : Instruction κ ρ} (h : p.Reached t e)
    (hi : p.instruction e = .ok i) : ∃ edit, p.edit t e = .ok edit := by
  obtain ⟨row, hrow, -⟩ := h i hi
  unfold Projection.edit
  rw [hi]
  exact Instruction.exists_edit hrow

theorem Reached.foldlM (h : p.Reached t e) (hf : es.foldlM p.fold t = .ok t')
    (hd : ∀ e' ∈ es, ¬p.Drops e') : p.Reached t' e := by
  intro i hi
  obtain ⟨row, hrow, hs⟩ := h i hi
  obtain ⟨r, hr, hle⟩ := exists_get?_foldlM hf hd hrow
  exact ⟨r, hr, Int.le_trans hs hle⟩

/-- Without drops, every event that was folded is reached. -/
theorem Lawful.reached_of_mem (hp : p.Lawful) (h : p.rowsAfter es = .ok t) (he : e ∈ es)
    (hd : ∀ e' ∈ es, ¬p.Drops e') : p.Reached t e := by
  obtain ⟨pre, post, rfl⟩ := List.append_of_mem he
  rw [List.append_cons] at h hd
  unfold rowsAfter at h
  rw [List.foldlM_append] at h
  obtain ⟨t₁, hpre, h⟩ := exists_of_bind_eq_ok h
  obtain ⟨t₀, h₀, hfold⟩ := rowsAfter_concat_ok hpre
  have hmem (e' : Event) (he' : e' ∈ post) : ¬p.Drops e' := hd e' (List.mem_append_right _ he')
  exact (hp.reached_of_fold hfold (keyed_rowsAfter h₀) (hd e (by simp))).foldlM h hmem

/-- **Late writes.** A write that was decided on whatever rows changes nothing once its event is
reached. -/
theorem Lawful.apply_eq_self (hp : p.Lawful) (hk : t₀.Keyed) {edit : Edit κ ρ}
    (hedit : p.edit t₀ e = .ok edit) (hd : ¬p.Drops e) (h : p.Reached t e) :
    edit.apply t = t := by
  unfold Projection.edit at hedit
  cases hi : p.instruction e with
  | error err => simp [hi] at hedit
  | ok i =>
    obtain ⟨held, hg, hs⟩ := h i hi
    rw [hi] at hedit
    cases i with
    | put row =>
      cases hedit
      exact Table.put_eq_self hg (by rw [hp.put hi]; exact hs)
    | drop key => exact absurd ⟨key, hi⟩ hd
    | revise key missing s change =>
      obtain ⟨rfl, hc⟩ := hp.revise hi
      simp only [Instruction.edit] at hedit
      cases hg₀ : t₀.get? key with
      | none => simp [hg₀] at hedit
      | some row =>
        rw [hg₀] at hedit
        by_cases hle : e.sequence ≤ Row.sequence row
        · simp only [hle, if_true] at hedit
          cases hedit
          rfl
        · simp only [hle, if_false] at hedit
          cases hedit
          have hkey : Row.key (change row) = key := by rw [(hc row).1, hk hg₀]
          exact Table.put_eq_self (by rw [hkey]; exact hg) (by rw [(hc row).2]; exact hs)

end Projection
end Chronicle
