import Chronicle.Proofs.View.Agreement
/-!
# Owners with one identifier

An instance and an organization that carry the same identifier have streams of their own, while a
view of policies keeps one row for both. As long as no two owners with one identifier have a policy
in effect at the same time, each sees its own policy. Once two do, one of them does not.

* `EventLog.Single`: no place is taken twice;
* `EventLog.Settled`: behind the whole log every row agrees with its aggregate;
* `EventLog.Settled.enter`: the next event, as long as no place is taken twice;
* `PolicyRow.Isolated`: each owner sees its own policy;
* **`ViewKind.isolated_iff`**: exactly the runs of commands in which owners are isolated.
-/

namespace Chronicle

/-- A slot holds something before an event about it, or behind it. -/
theorem Entered.held {log log' : EventLog} {x : Slot} {e : Event} (ent : Entered log x e log') :
    log.entry x ≠ none ∨ log'.entry x ≠ none := by
  obtain ⟨r, hr, hopens | hheld⟩ := ent.revises
  · refine .inr ?_
    rw [ent.entry x, hr]
    cases r with
    | opened content => nofun
    | amended change => cases hopens
    | closed => cases hopens
  · exact .inl hheld

theorem Entered.entry_of_ne {log log' : EventLog} {x y : Slot} {e : Event}
    (ent : Entered log x e log') (hy : y ≠ x) : log'.entry y = log.entry y := by
  rw [ent.entry y, ent.other y hy]
  rfl

namespace EventLog

/-- No two slots that a view shows in one place hold something. -/
def Single (log : EventLog) (v : ViewKind) : Prop :=
  ∀ x y : Slot, x.subject.view = v → y.place = x.place →
    log.entry x ≠ none → log.entry y ≠ none → y = x

/-- The rows that a whole log comes to agree with the aggregates: a slot that holds something has
its row, and there are no other rows. -/
structure Settled (log : EventLog) (v : ViewKind) (T : Tables) : Prop where
  follows : T.Follows v log.events
  shown : ∀ x : Slot, x.subject.view = v → log.entry x ≠ none →
    x.Shown log.events (log.entry x) (T.look x.place)
  vacant : ∀ p : (v : ViewKind) × v.Key, p.1 = v →
    (∀ x : Slot, x.place = p → log.entry x = none) → T.look p = none

variable {log log' : EventLog} {v : ViewKind} {x : Slot} {e : Event} {T : Tables}

theorem settled_of_events_eq_nil (h : log.events = []) (v : ViewKind) :
    log.Settled v fun _ => Index.empty := by
  constructor
  · rw [h]
    exact Tables.follows_nil v
  · intro x _ hx
    rw [entry_of_load (load_of_events_eq_nil h _)] at hx
    cases x <;> exact absurd rfl hx
  · intro p _ _
    rfl

theorem Settled.enter_of_ne (h : log.Settled v T) (ent : Entered log x e log')
    (hv : v ≠ x.subject.view) : log'.Settled v T := by
  have hother (y : Slot) (hy : y.subject.view = v) : y ≠ x := by
    rintro rfl
    exact hv hy.symm
  constructor
  · rw [ent.events]
    exact h.follows.concat_of_ne ent hv
  · intro y hy hheld
    rw [ent.entry_of_ne (hother y hy)] at hheld ⊢
    rw [ent.events]
    exact (h.shown y hy hheld).concat (ent.other y (hother y hy))
  · intro p hp hnone
    refine h.vacant p hp fun y hy => ?_
    have hview : y.subject.view = v := by
      rw [← hp, ← hy]
      rfl
    rw [← ent.entry_of_ne (hother y hview)]
    exact hnone y hy

/-- Where an event opens a slot, no other slot in this place holds anything. Where it amends or
closes a slot, the row is the row of this slot. -/
theorem Settled.shown_of_entered (h : log.Settled x.subject.view T) (ent : Entered log x e log')
    (single' : log'.Single x.subject.view) :
    x.Shown log.events (log.entry x) (T.look x.place) := by
  by_cases hheld : log.entry x = none
  · have hopened : log'.entry x ≠ none := ent.held.resolve_left (not_not_intro hheld)
    rw [hheld]
    refine h.vacant x.place rfl fun y hy => ?_
    by_cases hyx : y = x
    · rw [hyx, hheld]
    · by_contra hy'
      rw [← ent.entry_of_ne hyx] at hy'
      exact hyx (single' x y rfl hy hopened hy')
  · exact h.shown x rfl hheld

/-- **The next event.** It is folded and rows and aggregates go on to agree, as long as no place is
taken twice. -/
theorem Settled.enter (h : log.Settled x.subject.view T) (ent : Entered log x e log')
    (single : log.Single x.subject.view) (single' : log'.Single x.subject.view) :
    ∃ T', log'.Settled x.subject.view T' := by
  obtain ⟨T', hfollows, hshown, -, hframe⟩ :=
    Tables.enter h.follows ent (fun _ he' => he') (h.shown_of_entered ent single')
  refine ⟨T', ?_, ?_, ?_⟩
  · rw [ent.events]
    exact hfollows
  · intro y hview hheld
    rw [ent.events]
    by_cases hy : y = x
    · subst hy
      exact hshown
    have hplace : y.place ≠ x.place := by
      intro hp
      rcases ent.held with hx | hx
      · rw [ent.entry_of_ne hy] at hheld
        exact hy (single x y rfl hp hx hheld)
      · exact hy (single' x y rfl hp hx hheld)
    rw [ent.entry_of_ne hy] at hheld ⊢
    rw [hframe _ hplace]
    exact (h.shown y hview hheld).concat (ent.other y hy)
  · intro p hp hnone
    by_cases hx : p = x.place
    · subst hx
      have hshown : x.Shown _ (log'.entry x) (T'.look x.place) := hshown
      rw [hnone x rfl] at hshown
      exact hshown
    · rw [hframe p hx]
      refine h.vacant p hp fun y hy => ?_
      have hyx : y ≠ x := by
        rintro rfl
        exact hx hy.symm
      rw [← ent.entry_of_ne hyx]
      exact hnone y hy

/-- Behind any run of commands in which no place is ever taken twice, rows and aggregates agree. -/
theorem exists_settled_after (h : log.events = []) {errands : List Errand}
    (single : ∀ n, (log.after (errands.take n)).Single v) :
    ∃ T, (log.after errands).Settled v T := by
  induction errands using List.reverseRecOn with
  | nil => exact ⟨_, settled_of_events_eq_nil h v⟩
  | append_singleton errands x ih =>
    have hbefore (n : Nat) : (log.after (errands.take n)).Single v := by
      have hn := single (min n errands.length)
      rwa [List.take_append_of_le_length (Nat.min_le_right ..), ← List.take_eq_take_min] at hn
    have hlast := single (errands.length + 1)
    rw [List.take_of_length_le (by simp), after_concat] at hlast
    obtain ⟨T, hT⟩ := ih hbefore
    rw [after_concat]
    rcases (kept_after h errands).land_entered x.command x.editor x.time with hl | ⟨e, ent⟩
    · rw [hl]
      exact ⟨T, hT⟩
    · by_cases hv : v = x.command.slot.subject.view
      · have hfirst := hbefore errands.length
        rw [List.take_length] at hfirst
        subst hv
        exact hT.enter ent hfirst hlast
      · exact ⟨T, hT.enter_of_ne ent hv⟩

end EventLog

/-! ## Policies -/

namespace PolicyRow

variable {S : Type} {t : Table String (PolicyRow S)} {held : Owner → Option S}

/-- Each owner sees its own policy, which is told from another under the same identifier by its
flag, and the default of an instance is the policy of this instance. -/
structure Isolated (t : Table String (PolicyRow S)) (held : Owner → Option S) : Prop where
  own : ∀ owner : Owner,
    ((t.get? owner.id).filter (·.isDefault == owner.isDefault)).map (·.settings) = held owner
  default : ∀ iam : String, (default? t iam).map (·.settings) = held (.iam iam)

/-- A row belongs to an instance or to an organization. -/
theorem Isolated.one (h : Isolated t held) (id : String) :
    held (.iam id) = none ∨ held (.org id) = none := by
  have hiam := h.own (.iam id)
  have horg := h.own (.org id)
  change ((t.get? id).filter (·.isDefault == true)).map _ = _ at hiam
  change ((t.get? id).filter (·.isDefault == false)).map _ = _ at horg
  rw [← hiam, ← horg]
  cases t.get? id with
  | none => exact .inl rfl
  | some row =>
    cases hd : row.isDefault with
    | false => simp [Option.filter, hd]
    | true => simp [Option.filter, hd]

theorem default?_eq (t : Table String (PolicyRow S)) (iam : String) :
    default? t iam = (t.get? iam).filter (·.isDefault == true) := by
  unfold default?
  cases t.get? iam with
  | none => rfl
  | some row => cases hd : row.isDefault <;> simp [Option.filter, hd]

/-- Owners are isolated if those with a policy in effect have its row and no other row is there. -/
theorem isolated_of_rows
    (hrow : ∀ owner s, held owner = some s →
      ∃ opened last, t.get? owner.id = some (owner.row s opened last))
    (hvacant : ∀ id, (∀ owner : Owner, owner.id = id → held owner = none) → t.get? id = none) :
    Isolated t held := by
  have hown (owner : Owner) :
      ((t.get? owner.id).filter (·.isDefault == owner.isDefault)).map (·.settings)
        = held owner := by
    cases hheld : held owner with
    | some s =>
      obtain ⟨opened, last, hget⟩ := hrow owner s hheld
      rw [hget]
      simp [Owner.row]
    | none =>
      cases hget : t.get? owner.id with
      | none => rfl
      | some row =>
        -- the row belongs to the other owner with this identifier
        have hother : ∃ o : Owner, o.id = owner.id ∧ held o ≠ none := by
          by_contra hno
          push Not at hno
          cases (hvacant owner.id hno).symm.trans hget
        obtain ⟨o, hid, ho⟩ := hother
        obtain ⟨s, hs⟩ := Option.ne_none_iff_exists'.1 ho
        obtain ⟨opened, last, hget'⟩ := hrow o s hs
        rw [hid, hget] at hget'
        cases hget'
        have hflag : o.isDefault ≠ owner.isDefault := by
          intro hd
          cases o <;> cases owner <;> cases hd <;> cases hid <;> exact ho hheld
        simp [Owner.row, Option.filter, hflag]
  refine ⟨hown, fun iam => ?_⟩
  rw [default?_eq]
  exact hown (.iam iam)

end PolicyRow

theorem Slot.exists_lockout {x : Slot} (h : x.subject.view = .lockout) :
    ∃ owner, x = .lockout owner := by
  cases x with
  | lockout owner => exact ⟨owner, rfl⟩
  | _ => cases h

theorem Slot.exists_orgIam {x : Slot} (h : x.subject.view = .orgIam) :
    ∃ owner, x = .orgIam owner := by
  cases x with
  | orgIam owner => exact ⟨owner, rfl⟩
  | _ => cases h

theorem Slot.exists_mailText {x : Slot} (h : x.subject.view = .mailText) :
    ∃ iam key, x = .mailText iam key := by
  cases x with
  | mailText iam key => exact ⟨iam, key, rfl⟩
  | _ => cases h

namespace EventLog

/-- The events that a view of policies follows can be folded, and each owner sees its own policy. -/
def Isolates {S : Type} (log : EventLog) (p : Projection String (PolicyRow S))
    (held : Owner → Option S) : Prop :=
  ∃ t, p.rowsAfter (log.events.filter p.query.admits) = .ok t ∧ PolicyRow.Isolated t held

variable {log : EventLog} {T : Tables}

/-- No place of a view of policies is taken twice if no identifier is. -/
theorem single_of_one {v : ViewKind} {slot : Owner → Slot}
    (all : ∀ x : Slot, x.subject.view = v → ∃ o, x = slot o)
    (ids : ∀ o o', (slot o').place = (slot o).place → o'.id = o.id)
    (one : ∀ id, log.entry (slot (.iam id)) = none ∨ log.entry (slot (.org id)) = none) :
    log.Single v := by
  intro x y hview hplace hx hy
  obtain ⟨o, rfl⟩ := all x hview
  obtain ⟨o', rfl⟩ := all y ((congrArg Sigma.fst hplace).trans hview)
  have hid : o'.id = o.id := ids o o' hplace
  cases o with
  | iam id =>
    cases o' with
    | iam id' => exact congrArg (fun id => slot (.iam id)) hid
    | org id' =>
      obtain rfl : id' = id := hid
      exact ((one id').elim hx hy).elim
  | org id =>
    cases o' with
    | iam id' =>
      obtain rfl : id' = id := hid
      exact ((one id').elim hy hx).elim
    | org id' => exact congrArg (fun id => slot (.org id)) hid

theorem Settled.isolates_lockout (h : log.Settled .lockout T) :
    log.Isolates lockoutProjection fun o => log.entry (.lockout o) := by
  refine ⟨T .lockout, h.follows, PolicyRow.isolated_of_rows ?_ ?_⟩
  · intro owner s hs
    have hshown := h.shown (.lockout owner) rfl (by rw [hs]; nofun)
    rw [hs] at hshown
    obtain ⟨opened, last, -, -, hrow⟩ := hshown
    exact ⟨opened, last, hrow⟩
  · intro id hnone
    refine h.vacant ⟨.lockout, id⟩ rfl fun x hx => ?_
    obtain ⟨owner, rfl⟩ := Slot.exists_lockout (congrArg Sigma.fst hx)
    exact hnone owner (eq_of_heq (Sigma.mk.inj hx).2)

theorem Settled.isolates_orgIam (h : log.Settled .orgIam T) :
    log.Isolates orgIamProjection fun o => log.entry (.orgIam o) := by
  refine ⟨T .orgIam, h.follows, PolicyRow.isolated_of_rows ?_ ?_⟩
  · intro owner s hs
    have hshown := h.shown (.orgIam owner) rfl (by rw [hs]; nofun)
    rw [hs] at hshown
    obtain ⟨opened, last, -, -, hrow⟩ := hshown
    exact ⟨opened, last, hrow⟩
  · intro id hnone
    refine h.vacant ⟨.orgIam, id⟩ rfl fun x hx => ?_
    obtain ⟨owner, rfl⟩ := Slot.exists_orgIam (congrArg Sigma.fst hx)
    exact hnone owner (eq_of_heq (Sigma.mk.inj hx).2)

/-- Behind every part of a run each owner sees its own policy exactly if no identifier is ever taken
twice. -/
theorem isolates_iff_one {S : Type} {p : Projection String (PolicyRow S)} {v : ViewKind}
    {held : EventLog → Owner → Option S}
    (single : ∀ log : EventLog,
      (∀ id, held log (.iam id) = none ∨ held log (.org id) = none) → log.Single v)
    (isolates : ∀ (log : EventLog) (T : Tables), log.Settled v T → log.Isolates p (held log))
    (h : log.events = []) (errands : List Errand) :
    (∀ n, (log.after (errands.take n)).Isolates p (held (log.after (errands.take n)))) ↔
      ∀ n id, held (log.after (errands.take n)) (.iam id) = none ∨
        held (log.after (errands.take n)) (.org id) = none := by
  constructor
  · intro hiso n id
    obtain ⟨t, -, hown⟩ := hiso n
    exact hown.one id
  · intro one n
    have hsingle (m : Nat) : (log.after ((errands.take n).take m)).Single v := by
      rw [List.take_take]
      exact single _ (one _)
    obtain ⟨T, hT⟩ := exists_settled_after h hsingle
    exact isolates _ T hT

end EventLog

/-- **Isolation.** Commands of any owners are handled one after the other. Behind each of them both
views of policies can be folded over the whole log with each owner seeing its own policy, exactly if
at no time an instance and an organization with the same identifier both have the policy in effect. -/
theorem PolicyRow.isolates_iff (schemas : Option SchemaSet) (errands : List Errand) :
    let log (n : Nat) := ({ schemas := schemas } : EventLog).after (errands.take n)
    ((∀ n, (log n).Isolates lockoutProjection fun o => (log n).entry (.lockout o)) ↔
      ∀ n id, (log n).entry (.lockout (.iam id)) = none ∨
        (log n).entry (.lockout (.org id)) = none) ∧
    ((∀ n, (log n).Isolates orgIamProjection fun o => (log n).entry (.orgIam o)) ↔
      ∀ n id, (log n).entry (.orgIam (.iam id)) = none ∨
        (log n).entry (.orgIam (.org id)) = none) := by
  intro log
  constructor
  · refine EventLog.isolates_iff_one (fun log one => ?_) (fun log T hT => hT.isolates_lockout) rfl
      errands
    exact EventLog.single_of_one (fun _ => Slot.exists_lockout)
      (fun o o' hplace => eq_of_heq (Sigma.mk.inj hplace).2) one
  · refine EventLog.isolates_iff_one (fun log one => ?_) (fun log T hT => hT.isolates_orgIam) rfl
      errands
    exact EventLog.single_of_one (fun _ => Slot.exists_orgIam)
      (fun o o' hplace => eq_of_heq (Sigma.mk.inj hplace).2) one

/-- An instance and an organization carry one identifier. The policy of the organization is passed
over, and its end takes the policy of the instance out of the view, which then cannot be changed. -/
theorem PolicyRow.not_isolated_of_shared_id :
    let log := EventLog.fresh.after
      [⟨⟨.lockout (.iam "x"), .add ⟨5, true⟩⟩, "root", ⟨0⟩⟩,
        ⟨⟨.lockout (.org "x"), .add ⟨1, false⟩⟩, "root", ⟨0⟩⟩,
        ⟨⟨.lockout (.org "x"), .remove⟩, "root", ⟨0⟩⟩]
    let log' := log.after [⟨⟨.lockout (.iam "x"), .change ⟨3, true⟩⟩, "root", ⟨0⟩⟩]
    log.entry (.lockout (.iam "x")) = some ⟨5, true⟩ ∧
      (lockoutProjection.rowsAfter (log.events.filter lockoutProjection.query.admits)).map
        (fun t => (PolicyRow.default? t "x").isSome) = .ok false ∧
      log'.entry (.lockout (.iam "x")) = some ⟨3, true⟩ ∧
      (lockoutProjection.rowsAfter (log'.events.filter lockoutProjection.query.admits)).isOk
        = false ∧
      ¬log.Isolates lockoutProjection fun o => log.entry (.lockout o) := by
  intro log log'
  have hruns : log.entry (.lockout (.iam "x")) = some ⟨5, true⟩ ∧
      (lockoutProjection.rowsAfter (log.events.filter lockoutProjection.query.admits)).map
        (fun t => (PolicyRow.default? t "x").isSome) = .ok false ∧
      (lockoutProjection.rowsAfter (log'.events.filter lockoutProjection.query.admits)).isOk
        = false := by
    decide +kernel
  obtain ⟨hentry, hfold, hblocked⟩ := hruns
  have hchanged : log'.entry (.lockout (.iam "x")) = some ⟨3, true⟩ := by
    have hkept : log.Kept := EventLog.kept_after rfl _
    have hkept' : log'.Kept := hkept.land _ _ _
    rw [hkept'.numbered.entry_eq]
    decide +kernel
  refine ⟨hentry, hfold, hchanged, hblocked, ?_⟩
  rintro ⟨t, ht, hiso⟩
  rw [ht] at hfold
  have hdefault := hiso.default "x"
  rw [hentry] at hdefault
  have hnone : (PolicyRow.default? t "x").isSome = false := Except.ok.inj hfold
  cases hd : PolicyRow.default? t "x" with
  | none =>
    rw [hd] at hdefault
    cases hdefault
  | some row =>
    rw [hd] at hnone
    cases hnone

end Chronicle
