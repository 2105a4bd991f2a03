import Chronicle.Proofs.View.Owners
/-!
# Whose policy an organization sees

An organization is to see its own policy, or else the default of the instance that it asks in, and
never the default of another instance. Defaults and policies of organizations stand in one table, and
the row of an organization is found by its identifier alone. So the rule is kept exactly as long as
the identifier that is asked for is not that of another instance with a default in the table; where it
is, this default is the answer.

* `PolicyRow.Scoped`: what an organization is to see;
* `PolicyRow.Foreign`: the identifier is that of another instance with a default;
* `Projection.forall_rowsAfter`: what holds of every row that events come to;
* `PolicyRow.effective_scoped_iff`, `PolicyRow.exists_foreign_iff`: when the rule is kept, on any
  table;
* **`PolicyRow.scoped_iff`**: when the rule is kept, behind any events.
-/

namespace Chronicle

namespace PolicyRow

variable {S : Type}

/-- What an organization is to see in an instance: its own row, then the default of this instance,
and nothing else. -/
inductive Scoped (t : Table String (PolicyRow S)) (what iam org : String) :
    Except Error (PolicyRow S) → Prop where
  /-- The row of the organization, which is no default. -/
  | own {row : PolicyRow S} (held : t.get? org = some row) (id : row.id = org)
      (flag : row.isDefault = false) : Scoped t what iam org (.ok row)
  /-- The default of the instance, where the organization has no row. -/
  | fallback {row : PolicyRow S} (lacking : ∀ r, t.get? org = some r → r.isDefault = true)
      (held : t.get? iam = some row) (id : row.id = iam) (flag : row.isDefault = true) :
      Scoped t what iam org (.ok row)
  /-- Neither of them is there. -/
  | absent (lacking : ∀ r, t.get? org = some r → r.isDefault = true)
      (none : ∀ r, t.get? iam = some r → r.isDefault = false) :
      Scoped t what iam org (.error (.notFound (.effective what org)))

/-- The identifier of an organization is that of another instance, whose default is in the table. -/
def Foreign (t : Table String (PolicyRow S)) (iam org : String) : Prop :=
  org ≠ iam ∧ ∃ row, t.get? org = some row ∧ row.isDefault = true

variable {t : Table String (PolicyRow S)} {what iam org : String} {row : PolicyRow S}

/-! ## On any table -/

theorem effective_of_held (h : t.get? org = some row) : effective t what iam org = .ok row := by
  unfold effective
  rw [h]

theorem effective_of_not_held (h : t.get? org = none) :
    effective t what iam org =
      match default? t iam with
      | none => .error (.notFound (.effective what org))
      | some row => .ok row := by
  unfold effective
  cases default? t iam <;> simp only [h]

theorem default?_eq_some_iff :
    default? t iam = some row ↔ t.get? iam = some row ∧ row.isDefault = true := by
  rw [default?_eq, Option.filter_eq_some_iff, beq_iff_eq]

theorem default?_eq_none_iff :
    default? t iam = none ↔ ∀ r, t.get? iam = some r → r.isDefault = false := by
  rw [default?_eq, Option.filter_eq_none_iff]
  simp only [beq_iff_eq, Bool.not_eq_true]

/-- Where the row of the organization is not a default of another instance, the rule is kept. -/
theorem scoped_of_not_foreign (keyed : Table.Keyed t) (h : ¬Foreign t iam org) :
    Scoped t what iam org (effective t what iam org) := by
  cases hget : t.get? org with
  | some row =>
    rw [effective_of_held hget]
    have hid : row.id = org := keyed hget
    cases hflag : row.isDefault with
    | false => exact .own hget hid hflag
    | true =>
      -- the organization goes by the identifier of the instance itself
      have horg : org = iam := by
        by_contra hne
        exact h ⟨hne, row, hget, hflag⟩
      subst horg
      refine .fallback (fun r hr => ?_) hget hid hflag
      cases hget.symm.trans hr
      exact hflag
  | none =>
    have hlacking : ∀ r, t.get? org = some r → r.isDefault = true := by simp [hget]
    rw [effective_of_not_held hget]
    cases hdefault : default? t iam with
    | none => exact .absent hlacking (default?_eq_none_iff.1 hdefault)
    | some row =>
      obtain ⟨hrow, hflag⟩ := default?_eq_some_iff.1 hdefault
      exact .fallback hlacking hrow (keyed hrow) hflag

/-- The default of another instance is seen exactly where it is asked for by its identifier. -/
theorem exists_foreign_iff (keyed : Table.Keyed t) :
    (∃ row, effective t what iam org = .ok row ∧ row.isDefault = true ∧ row.id ≠ iam) ↔
      Foreign t iam org := by
  constructor
  · rintro ⟨row, hrow, hflag, hid⟩
    cases hget : t.get? org with
    | some own =>
      rw [effective_of_held hget] at hrow
      cases hrow
      have hown : row.id = org := keyed hget
      exact ⟨hown ▸ hid, row, hget, hflag⟩
    | none =>
      rw [effective_of_not_held hget] at hrow
      cases hdefault : default? t iam with
      | none =>
        rw [hdefault] at hrow
        cases hrow
      | some own =>
        rw [hdefault] at hrow
        cases hrow
        exact absurd (keyed (default?_eq_some_iff.1 hdefault).1) hid
  · rintro ⟨hne, row, hget, hflag⟩
    have hown : row.id = org := keyed hget
    exact ⟨row, effective_of_held hget, hflag, by rwa [hown]⟩

/-- **The rule on a table.** It is kept exactly where no other instance is asked for. -/
theorem effective_scoped_iff (keyed : Table.Keyed t) :
    Scoped t what iam org (effective t what iam org) ↔ ¬Foreign t iam org := by
  refine ⟨fun h hforeign => ?_, scoped_of_not_foreign keyed⟩
  obtain ⟨row, hrow, hflag, hid⟩ := (exists_foreign_iff keyed).2 hforeign
  rw [hrow] at h
  cases h with
  | own _ _ hown => cases hown.symm.trans hflag
  | fallback _ _ hown _ => exact hid hown

end PolicyRow

/-! ## Behind events -/

namespace Projection

variable {κ ρ : Type} [SortKey κ] [Row ρ κ] {p : Projection κ ρ} {es : List Event}
  {t : Table κ ρ} {P : ρ → Prop}

theorem forall_get?_put {row : ρ} (h : ∀ key held, t.get? key = some held → P held)
    (hrow : P row) : ∀ key held, (t.put row).get? key = some held → P held := by
  intro key held hheld
  rcases Table.put_cases t row with ⟨-, -, -, hput⟩ | ⟨-, hput⟩ <;> rw [hput] at hheld
  · exact h key held hheld
  · by_cases hkey : key = Row.key row
    · subst hkey
      rw [Index.get?_insert_self] at hheld
      cases hheld
      exact hrow
    · rw [Index.get?_insert_of_ne hkey] at hheld
      exact h key held hheld

/-- What holds of every row that an event puts in, and stays so when an event changes the row, holds
of all rows. -/
theorem forall_rowsAfter (h : p.rowsAfter es = .ok t)
    (put : ∀ e ∈ es, ∀ row, p.instruction e = .ok (.put row) → P row)
    (revise : ∀ e ∈ es, ∀ key missing s change row,
      p.instruction e = .ok (.revise key missing s change) → P row → P (change row)) :
    ∀ key row, t.get? key = some row → P row := by
  induction es using List.reverseRecOn generalizing t with
  | nil =>
    cases h
    nofun
  | append_singleton es e ih =>
    obtain ⟨t₀, h₀, hfold⟩ := rowsAfter_concat_ok h
    have hbefore := ih h₀ (fun e' he' => put e' (List.mem_append_left _ he'))
      fun e' he' => revise e' (List.mem_append_left _ he')
    have hlast : e ∈ es ++ [e] := List.mem_append_right _ List.mem_cons_self
    rcases fold_cases hfold with ⟨row, hi, rfl⟩ | ⟨key, missing, s, change, row, hi, hget, hr⟩ |
      ⟨key, hi, rfl⟩
    · exact forall_get?_put hbefore (put e hlast row hi)
    · rcases hr with ⟨-, rfl⟩ | ⟨-, rfl⟩
      · exact hbefore
      · exact forall_get?_put hbefore
          (revise e hlast key missing s change row hi (hbefore key row hget))
    · intro k row hrow
      by_cases hk : k = key
      · subst hk
        rw [Table.drop, Index.get?_erase_self] at hrow
        cases hrow
      · rw [Table.drop, Index.get?_erase_of_ne hk] at hrow
        exact hbefore k row hrow

end Projection

namespace PolicyKind

variable {S C : Type} [Settings S C] {k : PolicyKind S C} {view : String} {e : Event}

theorem eq_ofEvent_of_put {row : PolicyRow S}
    (h : (k.projection view).instruction e = .ok (.put row)) :
    ∃ settings, row = PolicyRow.ofEvent e settings := by
  rw [instruction_projection] at h
  unfold instruction at h
  generalize PolicyEvent.codec.decode e = decoded at h
  cases decoded with
  | error err => cases h
  | ok event =>
    generalize hu : k.unwrap? event = own at h
    rcases own with _ | (settings | change | _) <;> simp only [hu] at h <;> cases h
    exact ⟨settings, rfl⟩

theorem eq_revise_of_revise {key : String} {missing : Error} {s : Int}
    {change : PolicyRow S → PolicyRow S}
    (h : (k.projection view).instruction e = .ok (.revise key missing s change)) :
    ∃ c : C, change = PolicyRow.revise e c := by
  rw [instruction_projection] at h
  unfold instruction at h
  generalize PolicyEvent.codec.decode e = decoded at h
  cases decoded with
  | error err => cases h
  | ok event =>
    generalize hu : k.unwrap? event = own at h
    rcases own with _ | (settings | c | _) <;> simp only [hu] at h <;> cases h
    exact ⟨c, rfl⟩

/-- The flag of a row says whether the event that put it in is of an instance. -/
theorem flag_of_rowsAfter {es : List Event} {t : Table String (PolicyRow S)}
    (h : (k.projection view).rowsAfter es = .ok t) {key : String} {row : PolicyRow S}
    (hget : t.get? key = some row) :
    ∃ e ∈ es, e.stream.id = row.id ∧ (row.isDefault = true ↔ e.stream.kind = iamKind) := by
  refine Projection.forall_rowsAfter
    (P := fun row => ∃ e ∈ es, e.stream.id = row.id ∧
      (row.isDefault = true ↔ e.stream.kind = iamKind)) h ?_ ?_ key row hget
  · intro e he row hi
    obtain ⟨settings, rfl⟩ := eq_ofEvent_of_put hi
    exact ⟨e, he, rfl, beq_iff_eq⟩
  · rintro e - key missing s change row hi ⟨e', he', hid, hflag⟩
    obtain ⟨c, rfl⟩ := eq_revise_of_revise hi
    exact ⟨e', he', hid, hflag⟩

end PolicyKind

/-- **Scope.** Take the rows that any events of any instances and organizations come to, for either
kind of policy. An organization sees its own policy, then the default of the instance it asks in, and
nothing else, exactly if it does not go by the identifier of another instance with a default; and it
is then, and only then, that it sees the default of another instance. Every row stands under its own
identifier, and is flagged as a default exactly if an instance put it in. -/
theorem PolicyRow.scoped_iff {S C : Type} [Settings S C] (k : PolicyKind S C) (view : String)
    {es : List Event} {t : Table String (PolicyRow S)}
    (h : (k.projection view).rowsAfter es = .ok t) (iam org : String) :
    (Scoped t k.what iam org (effective t k.what iam org) ↔ ¬Foreign t iam org) ∧
    ((∃ row, effective t k.what iam org = .ok row ∧ row.isDefault = true ∧ row.id ≠ iam) ↔
      Foreign t iam org) ∧
    ∀ key row, t.get? key = some row → row.id = key ∧
      ∃ e ∈ es, e.stream.id = key ∧ (row.isDefault = true ↔ e.stream.kind = iamKind) := by
  have keyed : Table.Keyed t := Projection.keyed_rowsAfter h
  refine ⟨effective_scoped_iff keyed, exists_foreign_iff keyed, fun key row hget => ?_⟩
  have hid : row.id = key := keyed hget
  obtain ⟨e, he, hstream, hflag⟩ := PolicyKind.flag_of_rowsAfter h hget
  exact ⟨hid, e, he, hstream.trans hid, hflag⟩

/-- One instance has a default and one organization a policy of its own. The organization sees its
policy in either instance, and another organization sees the default. -/
theorem PolicyRow.scoped_iff_override :
    let log := EventLog.fresh.after
      [⟨⟨.lockout (.iam "main"), .add ⟨5, true⟩⟩, "root", ⟨0⟩⟩,
        ⟨⟨.lockout (.org "acme"), .add ⟨1, false⟩⟩, "root", ⟨0⟩⟩]
    ∃ t, lockoutProjection.rowsAfter (log.events.filter lockoutProjection.query.admits) = .ok t ∧
      Scoped t "lockout policy" "main" "acme" (effective t "lockout policy" "main" "acme") ∧
      Scoped t "lockout policy" "main" "beta" (effective t "lockout policy" "main" "beta") ∧
      Scoped t "lockout policy" "side" "acme" (effective t "lockout policy" "side" "acme") := by
  intro log
  have hruns : (lockoutProjection.rowsAfter
      (log.events.filter lockoutProjection.query.admits)).map
        (fun t => ((t.get? "acme").map (·.isDefault), (t.get? "beta").map (·.isDefault)))
          = .ok (some false, none) := by
    decide +kernel
  cases hrows : lockoutProjection.rowsAfter
      (log.events.filter lockoutProjection.query.admits) with
  | error err =>
    rw [hrows] at hruns
    cases hruns
  | ok t =>
    rw [hrows] at hruns
    obtain ⟨hacme, hbeta⟩ := Prod.mk.inj (Except.ok.inj hruns)
    have hown (iam : String) : ¬Foreign t iam "acme" := by
      rintro ⟨-, row, hget, hflag⟩
      rw [hget] at hacme
      cases hflag.symm.trans (Option.some.inj hacme)
    have hnone : ¬Foreign t "main" "beta" := by
      rintro ⟨-, row, hget, -⟩
      rw [hget] at hbeta
      cases hbeta
    exact ⟨t, rfl, (scoped_iff lockoutKind _ hrows "main" "acme").1.2 (hown _),
      (scoped_iff lockoutKind _ hrows "main" "beta").1.2 hnone,
      (scoped_iff lockoutKind _ hrows "side" "acme").1.2 (hown _)⟩

/-- An instance has a default. Asked for in another instance under its identifier, as if it were an
organization, this default is the answer. -/
theorem PolicyRow.not_scoped_of_foreign_id :
    let log := EventLog.fresh.after
      [⟨⟨.lockout (.iam "other"), .add ⟨5, true⟩⟩, "root", ⟨0⟩⟩]
    ∃ t row, lockoutProjection.rowsAfter
        (log.events.filter lockoutProjection.query.admits) = .ok t ∧
      effective t "lockout policy" "iam" "other" = .ok row ∧ row.id = "other" ∧
      row.isDefault = true ∧
      ¬Scoped t "lockout policy" "iam" "other" (effective t "lockout policy" "iam" "other") := by
  intro log
  have hruns : (lockoutProjection.rowsAfter
      (log.events.filter lockoutProjection.query.admits)).map
        (fun t => (t.get? "other").map (·.isDefault)) = .ok (some true) := by
    decide +kernel
  cases hrows : lockoutProjection.rowsAfter
      (log.events.filter lockoutProjection.query.admits) with
  | error err =>
    rw [hrows] at hruns
    cases hruns
  | ok t =>
    rw [hrows] at hruns
    obtain ⟨row, hget, hflag⟩ := Option.map_eq_some_iff.1 (Except.ok.inj hruns)
    have keyed : Table.Keyed t := Projection.keyed_rowsAfter hrows
    have hforeign : Foreign t "iam" "other" := ⟨by decide, row, hget, hflag⟩
    exact ⟨t, row, rfl, effective_of_held hget, keyed hget, hflag,
      fun hscoped => (effective_scoped_iff keyed).1 hscoped hforeign⟩

end Chronicle
