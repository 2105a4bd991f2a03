import Chronicle.Proofs.Command.Refinement
/-!
# Calls in time

A call on an aggregate in hand is decided on the state that was loaded, and what it is answered with
meets the state that the facts before it have left. A call is timely if this makes no difference: it
is answered as on the state that it meets, and comes to the same.

* `ErrorKind`, `refusal?`: how a call is answered;
* `Decider.reply`, `Decider.Indifferent`: a call that is decided on another state than it meets;
* `PolicyKind.Timely`, `MailText.Timely`, `Members.Timely`, `Subject.Timely`: what has to be alike in
  the two states, of each kind of call;
* **`Subject.timely_iff`**.
-/

namespace Chronicle

/-! ## How a call is answered -/

/-- The kinds of errors. -/
inductive ErrorKind where
  | notFound
  | conflict
  | violation
  | lockHeld
  | infrastructure
deriving DecidableEq

/-- The kind of an error. -/
def Error.kind : Error → ErrorKind
  | .notFound _ => .notFound
  | .conflict _ _ _ => .conflict
  | .violation _ => .violation
  | .lockHeld _ => .lockHeld
  | .infrastructure _ => .infrastructure

/-- The kind of the error that a call ends with, if it does. -/
def refusal? {α : Type} : Except Error α → Option ErrorKind
  | .ok _ => none
  | .error e => some e.kind

namespace Decider

variable {κ σ ε : Type} (d : Decider κ σ ε)

/-- How a call is answered that is decided on the state `l`, and what becomes by it of the state `m`
that it meets. -/
def reply (l : σ) (r : κ) (m : σ) : Option ErrorKind × σ :=
  match d.answer r l with
  | .error e => (some e.kind, m)
  | .ok fact => (none, d.apply fact m)

/-- It makes no difference whether a call is decided on `l` or on the state that it meets. -/
def Indifferent (l m : σ) (r : κ) : Prop :=
  d.reply l r m = d.reply m r m

theorem reply_fst (l : σ) (r : κ) (m : σ) : (d.reply l r m).1 = refusal? (d.answer r l) := by
  unfold reply
  cases d.answer r l <;> rfl

end Decider

/-! ## Calls in time -/

section change

variable {T C : Type} {between : T → T → Option C} {apply : C → T → T} {l m t : T}

/-- The change from `l` to `t` leads from `m` to `t` as well, and there is none exactly if there is
none from `m`. -/
def Suits (between : T → T → Option C) (apply : C → T → T) (l m t : T) : Prop :=
  (between l t = none ↔ between m t = none) ∧ ∀ c, between l t = some c → apply c m = t

/-- A change suits exactly if it does the same to `m` as the change from `m` itself. -/
theorem suits_iff (exact : ∀ {c}, between m t = some c → apply c m = t) :
    Suits between apply l m t ↔ (between l t).map (apply · m) = (between m t).map (apply · m) := by
  unfold Suits
  cases between l t with
  | none => cases between m t <;> simp
  | some c =>
    cases hm : between m t with
    | none => simp
    | some c' => simp [exact hm]

end change

namespace PolicyKind

variable {S C : Type} [Settings S C] {k : PolicyKind S C}

/-- The call `r` on a policy in the state `m` may as well be decided on `l`. -/
def Timely (owner : Owner) (l m : PolicyState S) : PolicyCommand S → Prop
  | .add _ => l.lifecycle = .active ↔ m.lifecycle = .active
  | .change t =>
    (l.lifecycle = .active ↔ m.lifecycle = .active) ∧
      (l.lifecycle = .active → Suits Settings.between Settings.apply l.settings m.settings t)
  | .remove => owner.isDefault = true ∨ (l.lifecycle = .active ↔ m.lifecycle = .active)

/-- How a policy answers, and what it becomes. -/
theorem reply_eq (unwraps : ∀ e, k.unwrap? (k.wrap e) = some e) (owner : Owner)
    (l m : PolicyState S) (r : PolicyCommand S) :
    (k.decider owner).reply l r m =
      match r with
      | .add t => if l.lifecycle = .active then (some .violation, m) else (none, ⟨.active, t⟩)
      | .change t =>
        if l.lifecycle = .active then
          match (Settings.between l.settings t).map (Settings.apply · m.settings) with
          | none => (some .violation, m)
          | some settings => (none, { m with settings })
        else (some .notFound, m)
      | .remove =>
        if owner.isDefault then (some .violation, m)
        else if l.lifecycle = .active then (none, ⟨.removed, Settings.initial⟩)
        else (some .notFound, m) := by
  unfold Decider.reply decider answer
  cases r with
  | add t =>
    by_cases hl : l.lifecycle = .active <;>
      simp [hl, Except.map, unwraps, Error.kind, PolicyState.apply]
  | change t =>
    by_cases hl : l.lifecycle = .active
    · cases hb : Settings.between l.settings t <;>
        simp [hl, hb, Except.map, unwraps, Error.kind, PolicyState.apply]
    · simp [hl, Except.map, Error.kind]
  | remove =>
    cases hd : owner.isDefault with
    | true => simp [Except.map, Error.kind]
    | false =>
      by_cases hl : l.lifecycle = .active <;>
        simp [hl, Except.map, unwraps, Error.kind, PolicyState.apply]

theorem timely_iff [ExactSettings S] (unwraps : ∀ e, k.unwrap? (k.wrap e) = some e)
    (owner : Owner) (l m : PolicyState S) (r : PolicyCommand S) :
    Timely owner l m r ↔ (k.decider owner).Indifferent l m r := by
  unfold Decider.Indifferent
  rw [reply_eq unwraps, reply_eq unwraps]
  cases r with
  | add t =>
    unfold Timely
    by_cases hl : l.lifecycle = .active <;> by_cases hm : m.lifecycle = .active <;> simp [hl, hm]
  | change t =>
    unfold Timely
    by_cases hl : l.lifecycle = .active
    · by_cases hm : m.lifecycle = .active
      · simp only [hl, hm, forall_const, true_and, if_true]
        rw [suits_iff ExactSettings.apply_of_between]
        cases (Settings.between l.settings t).map (Settings.apply · m.settings) <;>
          cases (Settings.between m.settings t).map (Settings.apply · m.settings) <;> simp
      · cases hbl : Settings.between l.settings t <;> simp [hl, hm, hbl]
    · by_cases hm : m.lifecycle = .active
      · cases hbm : Settings.between m.settings t <;> simp [hl, hm, hbm]
      · simp [hl, hm]
  | remove =>
    unfold Timely
    cases owner.isDefault with
    | true => simp
    | false =>
      by_cases hl : l.lifecycle = .active <;> by_cases hm : m.lifecycle = .active <;> simp [hl, hm]

end PolicyKind

namespace MailText

variable {iam : String} {key : MailTextKey}

/-- The call `r` on a mail text in the state `m` may as well be decided on `l`. -/
def Timely (key : MailTextKey) (l m : MailTextState) : MailTextCommand → Prop
  | .add _ => (∃ e, key.validate = .error e) ∨ (l.lifecycle = .active ↔ m.lifecycle = .active)
  | .change t =>
    (l.lifecycle = .active ↔ m.lifecycle = .active) ∧
      (l.lifecycle = .active →
        Suits MailTextContent.between MailTextContent.apply l.content m.content t)

theorem kind_of_validate {e : Error} (h : key.validate = .error e) : e.kind = .violation := by
  unfold MailTextKey.validate at h
  split at h
  · cases h
    rfl
  · split at h <;> cases h
    rfl

/-- How a mail text answers, and what it becomes. -/
theorem reply_eq (iam : String) (key : MailTextKey) (l m : MailTextState) (r : MailTextCommand) :
    (decider iam key).reply l r m =
      match r with
      | .add t =>
        match key.validate with
        | .error _ => (some .violation, m)
        | .ok () => if l.lifecycle = .active then (some .violation, m) else (none, ⟨.active, t⟩)
      | .change t =>
        if l.lifecycle = .active then
          match (MailTextContent.between l.content t).map (MailTextContent.apply · m.content) with
          | none => (some .violation, m)
          | some content => (none, { m with content })
        else (some .notFound, m) := by
  unfold Decider.reply decider answer
  cases r with
  | add t =>
    cases hv : key.validate with
    | error e => simp [kind_of_validate hv]
    | ok u => by_cases hl : l.lifecycle = .active <;> simp [hl, Error.kind, apply]
  | change t =>
    by_cases hl : l.lifecycle = .active
    · cases hb : MailTextContent.between l.content t <;> simp [hl, hb, Error.kind, apply]
    · simp [hl, Error.kind]

theorem timely_iff (iam : String) (key : MailTextKey) (l m : MailTextState)
    (r : MailTextCommand) : Timely key l m r ↔ (decider iam key).Indifferent l m r := by
  unfold Decider.Indifferent
  rw [reply_eq, reply_eq]
  cases r with
  | add t =>
    unfold Timely
    cases hv : key.validate with
    | error e => simp
    | ok u =>
      by_cases hl : l.lifecycle = .active <;> by_cases hm : m.lifecycle = .active <;>
        simp [hl, hm]
  | change t =>
    unfold Timely
    by_cases hl : l.lifecycle = .active
    · by_cases hm : m.lifecycle = .active
      · simp only [hl, hm, forall_const, true_and, if_true]
        rw [suits_iff MailTextContent.apply_of_between]
        cases (MailTextContent.between l.content t).map (MailTextContent.apply · m.content) <;>
          cases (MailTextContent.between m.content t).map (MailTextContent.apply · m.content) <;> simp
      · cases hbl : MailTextContent.between l.content t <;> simp [hl, hm, hbl]
    · by_cases hm : m.lifecycle = .active
      · cases hbm : MailTextContent.between m.content t <;> simp [hl, hm, hbm]
      · simp [hl, hm]

end MailText

namespace Members

/-- The call `r` on members in the state `m` may as well be decided on `l`. -/
def Timely (l m : MemberState) : MemberCommand → Prop
  | .add user roles =>
    (Roles.normalize roles).isEmpty = true ∨ l.contains user = m.contains user
  | .change user roles =>
    l.contains user = m.contains user ∧
      ((Roles.normalize roles).isEmpty = true ∨
        (l.get? user = some (Roles.normalize roles) ↔ m.get? user = some (Roles.normalize roles)))
  | .remove user => l.contains user = m.contains user

/-- How the members answer, and what they become. -/
theorem reply_eq (iam : String) (l m : MemberState) (r : MemberCommand) :
    (decider iam).reply l r m =
      match r with
      | .add user roles =>
        if (Roles.normalize roles).isEmpty then (some .violation, m)
        else if l.contains user then (some .violation, m)
        else (none, m.insert user (Roles.normalize roles))
      | .change user roles =>
        match l.get? user with
        | none => (some .notFound, m)
        | some held =>
          if (Roles.normalize roles).isEmpty then (some .violation, m)
          else if held = Roles.normalize roles then (some .violation, m)
          else (none, m.insert user (Roles.normalize roles))
      | .remove user =>
        if l.contains user then (none, m.erase user) else (some .notFound, m) := by
  unfold Decider.reply decider answer requireRoles
  cases r with
  | add user roles =>
    cases hr : (Roles.normalize roles).isEmpty with
    | true => simp [hr, Error.kind]
    | false => cases hl : l.contains user <;> simp [hr, hl, Error.kind, apply]
  | change user roles =>
    cases hl : l.get? user with
    | none => simp [hl, Error.kind]
    | some held =>
      cases hr : (Roles.normalize roles).isEmpty with
      | true => simp [hl, hr, Error.kind]
      | false =>
        by_cases hh : held = Roles.normalize roles <;> simp [hl, hr, hh, Error.kind, apply]
  | remove user => cases hl : l.contains user <;> simp [hl, Error.kind, apply]

theorem timely_iff (iam : String) (l m : MemberState) (r : MemberCommand) :
    Timely l m r ↔ (decider iam).Indifferent l m r := by
  unfold Decider.Indifferent
  rw [reply_eq, reply_eq]
  cases r with
  | add user roles =>
    unfold Timely
    cases hr : (Roles.normalize roles).isEmpty <;> cases hl : l.contains user <;>
      cases hm : m.contains user <;> simp [hr, hl, hm]
  | change user roles =>
    unfold Timely Index.contains
    cases hl : l.get? user with
    | none =>
      cases hm : m.get? user with
      | none => simp [hl, hm]
      | some held' =>
        cases hr : (Roles.normalize roles).isEmpty <;>
          by_cases hh' : held' = Roles.normalize roles <;> simp_all
    | some held =>
      cases hm : m.get? user with
      | none =>
        cases hr : (Roles.normalize roles).isEmpty <;>
          by_cases hh : held = Roles.normalize roles <;> simp_all
      | some held' =>
        cases hr : (Roles.normalize roles).isEmpty with
        | true => simp [hl, hm, hr]
        | false =>
          by_cases hh : held = Roles.normalize roles <;>
            by_cases hh' : held' = Roles.normalize roles <;> simp [hl, hm, hr, hh, hh']
  | remove user =>
    unfold Timely
    cases hl : l.contains user <;> cases hm : m.contains user <;> simp [hl, hm]

end Members

namespace Subject

/-- The call `r` on a subject in the state `m` may as well be decided on `l`. -/
def Timely : (s : Subject) → s.State → s.State → s.Request → Prop
  | lockout owner, l, m, r => PolicyKind.Timely (S := LockoutSettings) owner l m r
  | orgIam owner, l, m, r => PolicyKind.Timely (S := OrgIamSettings) owner l m r
  | mailText _ key, l, m, r => MailText.Timely key l m r
  | members _, l, m, r => Members.Timely l m r

/-- **Calls in time.** It makes no difference whether a call is decided on the state that it meets or
on another one exactly if the call is timely. -/
theorem timely_iff (s : Subject) (l m : s.State) (r : s.Request) :
    s.Timely l m r ↔ s.decider.Indifferent l m r := by
  cases s with
  | lockout owner => exact PolicyKind.timely_iff (k := lockoutKind) (fun _ => rfl) owner l m r
  | orgIam owner => exact PolicyKind.timely_iff (k := orgIamKind) (fun _ => rfl) owner l m r
  | mailText iam key => exact MailText.timely_iff iam key l m r
  | members iam => exact Members.timely_iff iam l m r

end Subject

end Chronicle
