import Chronicle.Member.Aggregate
import Chronicle.Time.Rfc3339
import Chronicle.View.Table
/-!
# Member rows

One row per instance and user, as long as the user is a member.

* `MemberRow`, `MemberRow.json`;
* **`memberProjection`**.
-/

namespace Chronicle

/-- A membership. -/
structure MemberRow where
  iam : String
  user : String
  roles : List String
  sequence : Int
  createdAt : Instant
  changedAt : Instant
  owner : String
deriving DecidableEq

namespace MemberRow

instance : Row MemberRow (String × String) where
  key row := (row.iam, row.user)
  sequence := sequence

/-- The row of a user that an event makes a member. -/
def ofEvent (e : Event) (user : String) (roles : List String) : MemberRow where
  iam := e.stream.id
  user := user
  roles := roles
  sequence := e.sequence
  createdAt := e.time
  changedAt := e.time
  owner := e.stream.owner

/-- The row after an event that replaces the roles. -/
def revise (e : Event) (roles : List String) (row : MemberRow) : MemberRow :=
  { row with roles := roles, sequence := e.sequence, changedAt := e.time }

/-- The row as an object. -/
def json (row : MemberRow) : Json :=
  .obj [("iam_id", .str row.iam), ("user_id", .str row.user), ("roles", .ofStrings row.roles),
    ("sequence", .int row.sequence), ("creation_date", .str row.createdAt.rfc3339),
    ("change_date", .str row.changedAt.rfc3339), ("resource_owner", .str row.owner)]

end MemberRow

namespace Members

/-- The name of the view of members. -/
def view : String := "projections.iam_members"

/-- What an event of the member context asks of the member rows. -/
def instruction (e : Event) : Except Error (Instruction (String × String) MemberRow) :=
  match MemberEvent.codec.decode e with
  | .error err => .error err
  | .ok (.added user roles) => .ok (.put (MemberRow.ofEvent e user roles))
  | .ok (.changed user roles) =>
    .ok (.revise (e.stream.id, user)
      (.violation (.missingRow view (user ++ " on " ++ e.stream.id) e.sequence)) e.sequence
      (MemberRow.revise e roles))
  | .ok (.removed user) => .ok (.drop (e.stream.id, user))

end Members

/-- The view of members. -/
def memberProjection : Projection (String × String) MemberRow where
  view := Members.view
  query := (Filter.all.ofKinds [iamKind]).ofTags MemberEvent.tags
  instruction := Members.instruction
  reached := .memberRowReached

end Chronicle
