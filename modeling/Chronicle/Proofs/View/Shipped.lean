import Chronicle.Proofs.View.Refold
import Chronicle.Simulation.Surroundings
/-!
# The four views

The four views differ in their keys, their rows and what an event asks of them, and agree in
everything else. They are named here, so that a property can be stated once for all of them.

* `ViewKind`, `ViewKind.Key`, `ViewKind.Entry`: the views, their keys and their rows;
* `ViewKind.projection`, `ViewKind.part`, `ViewKind.handler`: how they follow the log;
* **`ViewKind.lawful`**: all four projections are lawful.
-/

namespace Chronicle

/-- The views that are maintained. -/
inductive ViewKind where
  | lockout
  | orgIam
  | mailText
  | member
deriving DecidableEq, Repr

namespace ViewKind

/-- The keys of the rows. -/
@[reducible] def Key : ViewKind → Type
  | lockout => String
  | orgIam => String
  | mailText => String × MailTextKey
  | member => String × String

/-- The rows. -/
@[reducible] def Entry : ViewKind → Type
  | lockout => PolicyRow LockoutSettings
  | orgIam => PolicyRow OrgIamSettings
  | mailText => MailTextRow
  | member => MemberRow

instance : (v : ViewKind) → SortKey v.Key
  | lockout => inferInstanceAs (SortKey String)
  | orgIam => inferInstanceAs (SortKey String)
  | mailText => inferInstanceAs (SortKey (String × MailTextKey))
  | member => inferInstanceAs (SortKey (String × String))

instance : (v : ViewKind) → Row v.Entry v.Key
  | lockout => inferInstanceAs (Row (PolicyRow LockoutSettings) String)
  | orgIam => inferInstanceAs (Row (PolicyRow OrgIamSettings) String)
  | mailText => inferInstanceAs (Row MailTextRow (String × MailTextKey))
  | member => inferInstanceAs (Row MemberRow (String × String))

/-- How a view follows the log. -/
def projection : (v : ViewKind) → Projection v.Key v.Entry
  | lockout => lockoutProjection
  | orgIam => orgIamProjection
  | mailText => mailTextProjection
  | member => memberProjection

/-- Where the rows are kept. -/
def part : (v : ViewKind) → Part Stores (Table v.Key v.Entry)
  | lockout => Stores.lockout
  | orgIam => Stores.orgIam
  | mailText => Stores.mailText
  | member => Stores.member

/-- The rows of a view in the common storage. -/
def rows (v : ViewKind) (s : Stores) : Table v.Key v.Entry := v.part.get s

/-- What maintains a view, once a `cycle` and with a `delay` before each fold. -/
def handler (v : ViewKind) (cycle delay : Duration) : Handler Stores :=
  { v.projection.handler v.part cycle with delay := delay }

/-- The name of a view. -/
def view (v : ViewKind) : String := v.projection.view

/-- The events that a view follows. -/
def query (v : ViewKind) : Filter := v.projection.query

@[simp] theorem rows_set (v : ViewKind) (t : Table v.Key v.Entry) (s : Stores) :
    v.rows (v.part.set t s) = t := by
  cases v <;> rfl

@[simp] theorem rows_modify (v : ViewKind) (f : Table v.Key v.Entry → Table v.Key v.Entry)
    (s : Stores) : v.rows (v.part.modify f s) = f (v.rows s) :=
  v.rows_set _ s

end ViewKind

/-! ## Lawfulness -/

theorem PolicyKind.instruction_projection {S C : Type} [Settings S C] (k : PolicyKind S C)
    (view : String) : (k.projection view).instruction = k.instruction view := by
  unfold projection
  dsimp only

theorem mailTextProjection_instruction : mailTextProjection.instruction = MailText.instruction := by
  unfold mailTextProjection
  dsimp only

theorem memberProjection_instruction : memberProjection.instruction = Members.instruction := by
  unfold memberProjection
  dsimp only

/-- The projections of policies with settings are lawful. -/
theorem PolicyKind.lawful {S C : Type} [Settings S C] (k : PolicyKind S C) (view : String) :
    (k.projection view).Lawful := by
  constructor
  · intro e row h
    rw [instruction_projection] at h
    unfold instruction at h
    generalize PolicyEvent.codec.decode e = decoded at h
    cases decoded with
    | error err => cases h
    | ok event =>
      generalize hu : k.unwrap? event = own at h
      rcases own with _ | (settings | change | _) <;> simp only [hu] at h <;> cases h
      rfl
  · intro e key missing s change h
    rw [instruction_projection] at h
    unfold instruction at h
    generalize PolicyEvent.codec.decode e = decoded at h
    cases decoded with
    | error err => cases h
    | ok event =>
      generalize hu : k.unwrap? event = own at h
      rcases own with _ | (settings | change | _) <;> simp only [hu] at h <;> cases h
      exact ⟨rfl, fun row => ⟨rfl, rfl⟩⟩

theorem mailTextProjection_lawful : mailTextProjection.Lawful := by
  constructor
  · intro e row h
    rw [mailTextProjection_instruction] at h
    unfold MailText.instruction at h
    generalize PolicyEvent.codec.decode e = decoded at h
    rcases decoded with _ | (_ | _ | _ | _) <;> cases h
    rfl
  · intro e key missing s change h
    rw [mailTextProjection_instruction] at h
    unfold MailText.instruction at h
    generalize PolicyEvent.codec.decode e = decoded at h
    rcases decoded with _ | (_ | _ | _ | _) <;> cases h
    exact ⟨rfl, fun row => ⟨rfl, rfl⟩⟩

theorem memberProjection_lawful : memberProjection.Lawful := by
  constructor
  · intro e row h
    rw [memberProjection_instruction] at h
    unfold Members.instruction at h
    generalize MemberEvent.codec.decode e = decoded at h
    rcases decoded with _ | (_ | _ | _) <;> cases h
    rfl
  · intro e key missing s change h
    rw [memberProjection_instruction] at h
    unfold Members.instruction at h
    generalize MemberEvent.codec.decode e = decoded at h
    rcases decoded with _ | (_ | _ | _) <;> cases h
    exact ⟨rfl, fun row => ⟨rfl, rfl⟩⟩

/-- **Lawful views.** What an event puts into a row of any view keeps its key and takes over the
sequence of the event. -/
theorem ViewKind.lawful (v : ViewKind) : v.projection.Lawful := by
  cases v with
  | lockout => exact lockoutKind.lawful _
  | orgIam => exact orgIamKind.lawful _
  | mailText => exact mailTextProjection_lawful
  | member => exact memberProjection_lawful

end Chronicle
