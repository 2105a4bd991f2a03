import Chronicle.Aggregate.Basic
import Chronicle.Json.Record
/-!
# Member events

The events of the member context: users become members of an instance with roles, have their roles
replaced, and leave.

* `MemberEvent`, `MemberEvent.user`, `MemberEvent.tag`, `MemberEvent.payload`;
* `MemberEvent.codec`: reading them back by event type.
-/

namespace Chronicle

/-- An event of the member context. -/
inductive MemberEvent where
  | added (user : String) (roles : List String)
  | changed (user : String) (roles : List String)
  | removed (user : String)
deriving DecidableEq

namespace MemberEvent

/-- The event type of a new member. -/
def addedTag : String := "iam.member.added"

/-- The event type of a member's new roles. -/
def changedTag : String := "iam.member.changed"

/-- The event type of a member that leaves. -/
def removedTag : String := "iam.member.removed"

/-- The event types of this context. -/
def tags : List String := [addedTag, changedTag, removedTag]

/-- The user that an event is about. -/
def user : MemberEvent → String
  | .added u _ => u
  | .changed u _ => u
  | .removed u => u

/-- The event type of an event. -/
def tag : MemberEvent → String
  | .added _ _ => addedTag
  | .changed _ _ => changedTag
  | .removed _ => removedTag

/-- The payload of a user with roles. -/
def writeGrant (user : String) (roles : List String) : Json :=
  .obj [("user_id", .str user), ("roles", .ofStrings roles)]

/-- The payload of an event. -/
def payload : MemberEvent → Json
  | .added u roles => writeGrant u roles
  | .changed u roles => writeGrant u roles
  | .removed u => .obj [("user_id", .str u)]

/-- Reads a user with roles. -/
def readGrant? (v : Json) : Option (String × List String) := do
  match ← Json.components? ["user_id", "roles"] v with
  | [user, roles] =>
    let user ← Json.required Json.asString? user
    let roles ← Json.required Json.asStrings? roles
    some (user, roles)
  | _ => none

/-- Reads a user. -/
def readUser? (v : Json) : Option String := do
  match ← Json.components? ["user_id"] v with
  | [user] => Json.required Json.asString? user
  | _ => none

/-- The readers of every event type of this context. -/
def registry : Registry MemberEvent :=
  Registry.ofTable
    [(addedTag, fun v => (readGrant? v).map fun g => .added g.1 g.2),
      (changedTag, fun v => (readGrant? v).map fun g => .changed g.1 g.2),
      (removedTag, fun v => (readUser? v).map .removed)]

/-- How events of this context are written and read. -/
def codec : Codec MemberEvent where
  read := registry.decode
  tag := tag
  payload := payload

end MemberEvent
end Chronicle
