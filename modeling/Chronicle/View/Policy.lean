import Chronicle.Policy.Aggregate
import Chronicle.Time.Rfc3339
import Chronicle.View.Table
/-!
# Policy rows

One row per owner identifier for each kind of policy, as long as the policy is in effect.

* `PolicyRow`, `PolicyRow.json`;
* **`lockoutProjection`**, **`orgIamProjection`**.
-/

namespace Chronicle

/-- A policy in effect. -/
structure PolicyRow (S : Type) where
  id : String
  sequence : Int
  createdAt : Instant
  changedAt : Instant
  owner : String
  lifecycle : Lifecycle
  /-- The policy is the default of an instance. -/
  isDefault : Bool
  settings : S
deriving DecidableEq

namespace PolicyRow

variable {S C : Type}

instance : Row (PolicyRow S) String where
  key := id
  sequence := sequence

/-- The row of a policy that an event sets. -/
def ofEvent (e : Event) (settings : S) : PolicyRow S where
  id := e.stream.id
  sequence := e.sequence
  createdAt := e.time
  changedAt := e.time
  owner := e.stream.owner
  lifecycle := .active
  isDefault := e.stream.kind == iamKind
  settings := settings

/-- The row after an event that changes the policy. -/
def revise [Settings S C] (e : Event) (change : C) (row : PolicyRow S) : PolicyRow S :=
  { row with
    settings := Settings.apply change row.settings, sequence := e.sequence, changedAt := e.time }

/-- The row as an object. -/
def json (fields : S → List (String × Json)) (row : PolicyRow S) : Json :=
  .obj ([("id", .str row.id), ("sequence", .int row.sequence),
    ("creation_date", .str row.createdAt.rfc3339), ("change_date", .str row.changedAt.rfc3339),
    ("resource_owner", .str row.owner), ("state", .str row.lifecycle.text),
    ("is_default", .bool row.isDefault)] ++ fields row.settings)

end PolicyRow

/-- What an event of the policy context asks of the rows of one kind of policy. -/
def PolicyKind.instruction {S C : Type} [Settings S C] (k : PolicyKind S C) (view : String)
    (e : Event) : Except Error (Instruction String (PolicyRow S)) :=
  match PolicyEvent.codec.decode e with
  | .error err => .error err
  | .ok event =>
    match k.unwrap? event with
    | none => .error (.violation (.foreignEvent view e.tag))
    | some (.added settings) => .ok (.put (PolicyRow.ofEvent e settings))
    | some (.changed change) =>
      .ok (.revise e.stream.id (.violation (.missingRow view e.stream.id e.sequence)) e.sequence
        (PolicyRow.revise e change))
    | some .removed => .ok (.drop e.stream.id)

/-- How the rows of one kind of policy follow the log. -/
def PolicyKind.projection {S C : Type} [Settings S C] (k : PolicyKind S C) (view : String) :
    Projection String (PolicyRow S) where
  view := view
  query := (Filter.all.ofKinds [iamKind, orgKind]).ofTags k.tags.all
  instruction := k.instruction view
  reached := .policyRowReached

/-- The view of lockout policies. -/
def lockoutProjection : Projection String (PolicyRow LockoutSettings) :=
  lockoutKind.projection "projections.lockout_policies"

/-- The view of login policies. -/
def orgIamProjection : Projection String (PolicyRow OrgIamSettings) :=
  orgIamKind.projection "projections.org_iam_policies"

end Chronicle
